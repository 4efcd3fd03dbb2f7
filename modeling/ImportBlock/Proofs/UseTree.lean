import ImportBlock.Statement.Syntax
import ImportBlock.Proofs.Token

/-! Use trees as they are written, and the words that the text of a tree is read as. -/

namespace ImportBlock.UseTree

mutual
def IsRead : UseTree → Prop
  | .name word => Identifier.IsWord word.toList
  | .rename word target => Identifier.IsWord word.toList ∧ Identifier.IsWord target.toList
  | .glob => True
  | .path word rest => Identifier.IsWord word.toList ∧ rest.IsRead
  | .group items => AllRead items
  | .foreign _ => False

def AllRead : List UseTree → Prop
  | [] => True
  | tree :: rest => tree.IsRead ∧ AllRead rest
end

theorem allRead_iff {items : List UseTree} : AllRead items ↔ ∀ tree ∈ items, tree.IsRead := by
  induction items with
  | nil => simp [AllRead]
  | cons tree rest induction => simp [AllRead, induction]

mutual
def source : UseTree → String
  | .name word => word
  | .rename word target => word ++ " as " ++ target
  | .glob => "*"
  | .path word rest => word ++ "::" ++ rest.source
  | .group items => "\x7b" ++ ", ".intercalate (sources items) ++ "\x7d"
  | .foreign _ => ""

def sources : List UseTree → List String
  | [] => []
  | tree :: rest => tree.source :: sources rest
end

theorem sources_eq_map (items : List UseTree) : sources items = items.map source := by
  induction items with
  | nil => rfl
  | cons tree rest induction => rw [sources, induction, List.map_cons]

mutual
def words : UseTree → List Word
  | .name word => [⟨.identifier, word⟩]
  | .rename word target => [⟨.identifier, word⟩, ⟨.identifier, "as"⟩, ⟨.identifier, target⟩]
  | .glob => [⟨.star, "*"⟩]
  | .path word rest => [⟨.identifier, word⟩, ⟨.pathSeparator, "::"⟩] ++ rest.words
  | .group items => [⟨.openBrace, "\x7b"⟩] ++ listWords items ++ [⟨.closeBrace, "\x7d"⟩]
  | .foreign _ => []

def listWords : List UseTree → List Word
  | [] => []
  | [tree] => tree.words
  | tree :: next :: rest => tree.words ++ [⟨.comma, ","⟩] ++ listWords (next :: rest)
end

/-! ## Spelling -/

theorem spells_as (rest : List Char) :
    Text.Spells " as ".toList [⟨.identifier, "as"⟩] rest :=
  (Text.spells_space _).append (@Text.spells_spaced "as" (by decide) rest)

theorem spells_comma (rest : List Char) : Text.Spells ", ".toList [⟨.comma, ","⟩] rest :=
  (@Text.spells_mark ',' (by decide) _).append (Text.spells_space rest)

mutual
/-- The text of a tree is read as its words, if no identifier goes on behind it. -/
theorem spells_source : ∀ {tree : UseTree}, tree.IsRead → ∀ {rest : List Char},
    Identifier.Ends rest → Text.Spells tree.source.toList tree.words rest
  | .name word, read, rest, ends => Text.spells_identifier read ends
  | .rename word target, read, rest, ends => by
      have last := Text.spells_identifier read.2 ends
      have middle := (spells_as (target.toList ++ rest)).append last
      have first : Text.Spells word.toList [⟨.identifier, word⟩]
          (" as ".toList ++ target.toList ++ rest) :=
        Text.spells_word read.1 ' ' (by decide) _
      rw [source, String.toList_append, String.toList_append, List.append_assoc]
      exact first.append middle
  | .glob, _, rest, _ =>
      @Text.spells_mark '*' (by decide) rest
  | .path word tree, read, rest, ends => by
      have last := spells_source read.2 ends
      have middle := (Text.spells_pathSeparator (tree.source.toList ++ rest)).append last
      have first : Text.Spells word.toList [⟨.identifier, word⟩]
          ("::".toList ++ tree.source.toList ++ rest) :=
        Text.spells_word read.1 ':' (by decide) _
      rw [source, String.toList_append, String.toList_append, List.append_assoc]
      exact first.append middle
  | .group items, read, rest, _ => by
      have last : Text.Spells ['\x7d'] [⟨.closeBrace, "\x7d"⟩] rest :=
        Text.spells_mark (by decide) rest
      have inside : Text.Spells (", ".intercalate (sources items)).toList (listWords items)
          ('\x7d' :: rest) := spells_sources read (Identifier.ends_cons (by decide) rest)
      have first : Text.Spells ['\x7b'] [⟨.openBrace, "\x7b"⟩]
          ((", ".intercalate (sources items)).toList ++ ['\x7d'] ++ rest) :=
        Text.spells_mark (by decide) _
      rw [source, words, String.toList_append, String.toList_append, List.append_assoc,
        List.append_assoc]
      exact first.append (inside.append last)
  | .foreign _, read, _, _ => read.elim

theorem spells_sources : ∀ {items : List UseTree}, AllRead items → ∀ {rest : List Char},
    Identifier.Ends rest → Text.Spells (", ".intercalate (sources items)).toList
      (listWords items) rest
  | [], _, rest, _ => Text.Spells.nil rest
  | [tree], read, rest, ends => by
      rw [sources, sources, String.intercalate_singleton, listWords]
      exact spells_source read.1 ends
  | tree :: next :: others, read, rest, ends => by
      have last := spells_sources read.2 ends
      have middle := (spells_comma _).append last
      have first : Text.Spells tree.source.toList tree.words
          (", ".toList ++ (", ".intercalate (sources (next :: others))).toList ++ rest) :=
        spells_source read.1 (Identifier.ends_cons (by decide) _)
      rw [sources, sources, String.intercalate_cons_cons, listWords, ← sources,
        String.toList_append, String.toList_append, List.append_assoc, List.append_assoc]
      exact first.append middle
end

end ImportBlock.UseTree
