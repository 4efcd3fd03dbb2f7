import ImportBlock.Statement.Syntax
import ImportBlock.Proofs.Token

/-! The grammar of use items. A phrase is a derivation in the grammar; it knows the words that it is
written with and the tree or metadata that it gives. The grammar is unambiguous: words are those of one
phrase at most. -/

namespace ImportBlock

/-! ## Trees -/

mutual
/-- A derivation of a use tree. -/
inductive TreePhrase
  | glob
  | name (word : String)
  | rename (word : String) (target : String)
  | path (word : String) (rest : TreePhrase)
  | emptyGroup
  | group (items : ListPhrase)

/-- A derivation of the items of a group that is not empty. -/
inductive ListPhrase
  /-- A comma may follow the last item. -/
  | last (item : TreePhrase) (comma : Bool)
  | more (item : TreePhrase) (rest : ListPhrase)
end

mutual
def TreePhrase.words : TreePhrase → List Word
  | .glob => [⟨.star, "*"⟩]
  | .name word => [⟨.identifier, word⟩]
  | .rename word target => [⟨.identifier, word⟩, ⟨.identifier, "as"⟩, ⟨.identifier, target⟩]
  | .path word rest => [⟨.identifier, word⟩, ⟨.pathSeparator, "::"⟩] ++ rest.words
  | .emptyGroup => [⟨.openBrace, "\x7b"⟩, ⟨.closeBrace, "\x7d"⟩]
  | .group items => [⟨.openBrace, "\x7b"⟩] ++ items.words ++ [⟨.closeBrace, "\x7d"⟩]

def ListPhrase.words : ListPhrase → List Word
  | .last item comma => item.words ++ if comma then [⟨.comma, ","⟩] else []
  | .more item rest => item.words ++ [⟨.comma, ","⟩] ++ rest.words
end

mutual
def TreePhrase.tree : TreePhrase → UseTree
  | .glob => .glob
  | .name word => .name word
  | .rename word target => .rename word target
  | .path word rest => .path word rest.tree
  | .emptyGroup => .group []
  | .group items => .group items.trees

def ListPhrase.trees : ListPhrase → List UseTree
  | .last item _ => [item.tree]
  | .more item rest => item.tree :: rest.trees
end

/-- Whether a word shows that the word before it is a name. -/
def Word.Closes (word : Word) : Prop := word.kind ≠ .pathSeparator ∧ word.kind ≠ .identifier

theorem TreePhrase.exists_words_eq_cons (phrase : TreePhrase) :
    ∃ first rest, phrase.words = first :: rest ∧ first.kind ≠ .closeBrace ∧
      first.kind ≠ .pathSeparator := by
  cases phrase <;> exact ⟨_, _, rfl, nofun, nofun⟩

theorem ListPhrase.exists_words_eq_cons (phrase : ListPhrase) :
    ∃ first rest, phrase.words = first :: rest ∧ first.kind ≠ .closeBrace := by
  cases phrase with
  | last item comma | more item rest =>
      rcases item.exists_words_eq_cons with ⟨first, others, equal, notEnd, _⟩
      rw [ListPhrase.words, equal]
      exact ⟨_, _, rfl, notEnd⟩

/-! ## Trees are read in one way -/

/-- Whether the words behind a tree show that it ends. -/
def Stops (rest : List Word) : Prop := ∀ word ∈ rest.head?, word.Closes

theorem stops_cons {word : Word} {rest : List Word} : Stops (word :: rest) ↔ word.Closes := by
  simp [Stops]

theorem stops_comma (rest : List Word) : Stops (⟨.comma, ","⟩ :: rest) := by
  simp [stops_cons, Word.Closes]

theorem stops_comma_or_end (comma : Bool) (rest : List Word) :
    Stops ((if comma then [⟨.comma, ","⟩] else []) ++ ⟨.closeBrace, "\x7d"⟩ :: rest) := by
  cases comma <;> simp [stops_cons, Word.Closes]

theorem comma_or_end_ne (items : ListPhrase) (comma : Bool) (front back : List Word) :
    (if comma then [⟨.comma, ","⟩] else []) ++ ⟨.closeBrace, "\x7d"⟩ :: front ≠
      ⟨.comma, ","⟩ :: (items.words ++ back) := by
  rcases items.exists_words_eq_cons with ⟨first, rest, equal, notEnd⟩
  intro same
  rw [equal] at same
  cases comma with
  | true =>
      rw [if_pos rfl, List.singleton_append, List.cons_append] at same
      rw [← (List.cons.inj (List.cons.inj same).2).1] at notEnd
      exact notEnd rfl
  | false => cases same

mutual
/-- Derivations of trees in front of words that end them are equal if all the words are. -/
theorem TreePhrase.eq_of_append : ∀ {left right : TreePhrase} {front back : List Word},
    Stops front → Stops back → left.words ++ front = right.words ++ back →
      left = right ∧ front = back
  | .glob, right, _, _, _, _, equal => by
      cases right <;> simp_all [TreePhrase.words]
  | .name word, right, front, back, stops, _, equal => by
      cases right with
      | rename | path =>
          simp only [TreePhrase.words, List.cons_append, List.nil_append, List.cons.injEq] at equal
          rw [equal.2, stops_cons] at stops
          simp [Word.Closes] at stops
      | _ => simp_all [TreePhrase.words]
  | .rename word target, right, front, back, _, stops, equal => by
      cases right with
      | name =>
          simp only [TreePhrase.words, List.cons_append, List.nil_append, List.cons.injEq] at equal
          rw [← equal.2, stops_cons] at stops
          simp [Word.Closes] at stops
      | _ => simp_all [TreePhrase.words]
  | .path word rest, right, front, back, stops, stops', equal => by
      cases right with
      | name =>
          simp only [TreePhrase.words, List.cons_append, List.nil_append, List.cons.injEq] at equal
          rw [← equal.2, stops_cons] at stops'
          simp [Word.Closes] at stops'
      | path word' rest' =>
          simp only [TreePhrase.words, List.cons_append, List.nil_append, List.cons.injEq, Word.mk.injEq,
            true_and] at equal
          rcases TreePhrase.eq_of_append stops stops' equal.2 with ⟨rfl, rfl⟩
          rw [equal.1]
          exact ⟨rfl, rfl⟩
      | _ => simp_all [TreePhrase.words]
  | .emptyGroup, right, front, back, _, _, equal => by
      cases right with
      | group items =>
          rcases items.exists_words_eq_cons with ⟨first, others, words, notEnd⟩
          simp only [TreePhrase.words, words, List.cons_append, List.nil_append, List.cons.injEq] at equal
          rw [← equal.2.1] at notEnd
          exact absurd rfl notEnd
      | _ => simp_all [TreePhrase.words]
  | .group items, right, front, back, _, _, equal => by
      cases right with
      | emptyGroup =>
          rcases items.exists_words_eq_cons with ⟨first, others, words, notEnd⟩
          simp only [TreePhrase.words, words, List.cons_append, List.nil_append, List.cons.injEq] at equal
          rw [equal.2.1] at notEnd
          exact absurd rfl notEnd
      | group items' =>
          simp only [TreePhrase.words, List.cons_append, List.nil_append, List.append_assoc,
            List.cons.injEq, true_and] at equal
          rcases ListPhrase.eq_of_append equal with ⟨rfl, rfl⟩
          exact ⟨rfl, rfl⟩
      | _ => simp_all [TreePhrase.words]

theorem ListPhrase.eq_of_append : ∀ {left right : ListPhrase} {front back : List Word},
    left.words ++ ⟨.closeBrace, "\x7d"⟩ :: front = right.words ++ ⟨.closeBrace, "\x7d"⟩ :: back →
      left = right ∧ front = back
  | .last item comma, .last item' comma', front, back, equal => by
      simp only [ListPhrase.words, List.append_assoc] at equal
      rcases TreePhrase.eq_of_append (stops_comma_or_end _ _) (stops_comma_or_end _ _) equal with
        ⟨rfl, ends⟩
      cases comma <;> cases comma' <;> simp_all
  | .last item comma, .more item' rest, front, back, equal => by
      simp only [ListPhrase.words, List.append_assoc, List.singleton_append] at equal
      rcases TreePhrase.eq_of_append (stops_comma_or_end _ _) (stops_comma _) equal with ⟨rfl, ends⟩
      exact absurd ends (comma_or_end_ne rest comma front _)
  | .more item rest, .last item' comma, front, back, equal => by
      simp only [ListPhrase.words, List.append_assoc, List.singleton_append] at equal
      rcases TreePhrase.eq_of_append (stops_comma _) (stops_comma_or_end _ _) equal with ⟨rfl, ends⟩
      exact absurd ends.symm (comma_or_end_ne rest comma back _)
  | .more item rest, .more item' rest', front, back, equal => by
      simp only [ListPhrase.words, List.append_assoc, List.singleton_append] at equal
      rcases TreePhrase.eq_of_append (stops_comma _) (stops_comma _) equal with ⟨rfl, ends⟩
      rcases ListPhrase.eq_of_append (List.cons.inj ends).2 with ⟨rfl, rfl⟩
      exact ⟨rfl, rfl⟩
end

/-! ## Visibilities -/

inductive Visibility
  | inherited
  | exported
  /-- Seen in a place that a keyword of paths names. -/
  | within (word : String)
  /-- Seen in the module of a path. -/
  | inPath (segments : List String)

namespace Visibility

def text : Visibility → String
  | .inherited => ""
  | .exported => "pub"
  | .within word => "pub(" ++ word ++ ")"
  | .inPath segments => "pub(in " ++ "::".intercalate segments ++ ")"

def pathWords : List String → List Word
  | [] => []
  | [segment] => [⟨.identifier, segment⟩]
  | segment :: next :: rest =>
      [⟨.identifier, segment⟩, ⟨.pathSeparator, "::"⟩] ++ pathWords (next :: rest)

def scopeWords : Visibility → List Word
  | .inherited | .exported => []
  | .within word => [⟨.openParenthesis, "("⟩, ⟨.identifier, word⟩, ⟨.closeParenthesis, ")"⟩]
  | .inPath segments =>
      [⟨.openParenthesis, "("⟩, ⟨.identifier, "in"⟩] ++ pathWords segments ++
        [⟨.closeParenthesis, ")"⟩]

def words : Visibility → List Word
  | .inherited => []
  | visibility => [⟨.identifier, "pub"⟩] ++ visibility.scopeWords

def IsFormed : Visibility → Prop
  | .inherited | .exported => True
  | .within word => Identifier.isPathKeyword word = true
  | .inPath segments => segments ≠ []

theorem pathWords_cons (segment : String) {rest : List String} (nonempty : rest ≠ []) :
    pathWords (segment :: rest) =
      ⟨.identifier, segment⟩ :: ⟨.pathSeparator, "::"⟩ :: pathWords rest := by
  cases rest with
  | nil => exact absurd rfl nonempty
  | cons next others => rfl

theorem eq_of_pathWords_append : ∀ {left right : List String}, left ≠ [] → right ≠ [] →
    ∀ {front back : List Word},
      pathWords left ++ ⟨.closeParenthesis, ")"⟩ :: front =
        pathWords right ++ ⟨.closeParenthesis, ")"⟩ :: back → left = right ∧ front = back
  | [], _, nonempty, _, _, _, _ => absurd rfl nonempty
  | _, [], _, nonempty, _, _, _ => absurd rfl nonempty
  | [_], [_], _, _, _, _, equal => by simp_all [pathWords]
  | [_], _ :: _ :: _, _, _, _, _, equal => by simp [pathWords] at equal
  | _ :: _ :: _, [_], _, _, _, _, equal => by simp [pathWords] at equal
  | first :: next :: rest, first' :: next' :: rest', _, _, front, back, equal => by
      simp only [pathWords, List.cons_append, List.nil_append, List.cons.injEq, Word.mk.injEq,
        true_and] at equal
      rcases eq_of_pathWords_append (List.cons_ne_nil _ _) (List.cons_ne_nil _ _) equal.2 with
        ⟨others, ends⟩
      exact ⟨by rw [equal.1, others], ends⟩

theorem not_isPathKeyword_in : Identifier.isPathKeyword "in" = false := by decide

theorem eq_of_words_append {left right : Visibility} (formed : left.IsFormed)
    (formed' : right.IsFormed) {front back : List Word}
    (equal : left.words ++ ⟨.identifier, "use"⟩ :: front =
      right.words ++ ⟨.identifier, "use"⟩ :: back) : left = right ∧ front = back := by
  cases left <;> cases right <;>
    simp only [words, scopeWords, List.append_assoc, List.cons_append, List.nil_append,
      List.cons.injEq, Word.mk.injEq, true_and, reduceCtorEq, false_and, and_false,
      String.reduceEq] at equal
  case inherited.inherited | exported.exported => exact ⟨rfl, equal⟩
  case within.within => exact ⟨by rw [equal.1], equal.2⟩
  case within.inPath =>
    rw [IsFormed, equal.1, not_isPathKeyword_in] at formed
    cases formed
  case inPath.within =>
    rw [IsFormed, ← equal.1, not_isPathKeyword_in] at formed'
    cases formed'
  case inPath.inPath =>
    rcases eq_of_pathWords_append formed formed' equal with ⟨rfl, ends⟩
    exact ⟨rfl, (List.cons.inj ends).2⟩

end Visibility

/-! ## Items -/

structure ItemPhrase where
  attributes : List String
  visibility : Visibility
  leadingColon : Bool
  tree : TreePhrase

namespace ItemPhrase

def metadata (item : ItemPhrase) : Metadata :=
  { visibility := item.visibility.text, attributes := item.attributes,
    leadingColon := item.leadingColon }

def attributeWords (attributes : List String) : List Word :=
  attributes.map fun body => ⟨.attribute, body⟩

def colonWords (leadingColon : Bool) : List Word :=
  if leadingColon then [⟨.pathSeparator, "::"⟩] else []

def words (item : ItemPhrase) : List Word :=
  attributeWords item.attributes ++ (item.visibility.words ++ ⟨.identifier, "use"⟩ ::
    (colonWords item.leadingColon ++ (item.tree.words ++ [⟨.semicolon, ";"⟩])))

def IsFormed (item : ItemPhrase) : Prop := item.visibility.IsFormed

theorem eq_of_attributeWords_append {left : List String} : ∀ {right : List String}
    {front back : List Word}, (∀ word ∈ front.head?, word.kind ≠ .attribute) →
      (∀ word ∈ back.head?, word.kind ≠ .attribute) →
        attributeWords left ++ front = attributeWords right ++ back →
          left = right ∧ front = back := by
  induction left with
  | nil =>
      intro right front back ends _ equal
      cases right with
      | nil => exact ⟨rfl, equal⟩
      | cons body others =>
          rw [attributeWords, List.map_nil, List.nil_append] at equal
          exact absurd rfl (ends ⟨.attribute, body⟩ (by rw [equal]; rfl))
  | cons body rest induction =>
      intro right front back ends ends' equal
      cases right with
      | nil =>
          rw [attributeWords, attributeWords, List.map_nil, List.nil_append] at equal
          exact absurd rfl (ends' ⟨.attribute, body⟩ (by rw [← equal]; rfl))
      | cons body' others =>
          simp only [attributeWords, List.map_cons, List.cons_append, List.cons.injEq,
            Word.mk.injEq, true_and] at equal
          rcases induction ends ends' equal.2 with ⟨rfl, behind⟩
          exact ⟨by rw [equal.1], behind⟩

theorem head_visibility_words (visibility : Visibility) (rest : List Word) :
    ∀ word ∈ (visibility.words ++ ⟨.identifier, "use"⟩ :: rest).head?, word.kind ≠ .attribute := by
  intro word first
  cases visibility <;> cases first <;> exact nofun

theorem eq_of_colonWords_append {left right : Bool} {tree tree' : TreePhrase}
    {front back : List Word}
    (equal : colonWords left ++ (tree.words ++ front) = colonWords right ++ (tree'.words ++ back)) :
    left = right ∧ tree.words ++ front = tree'.words ++ back := by
  have different : ∀ (tree : TreePhrase) (front rest : List Word),
      tree.words ++ front ≠ ⟨.pathSeparator, "::"⟩ :: rest := by
    intro tree front rest equal
    rcases tree.exists_words_eq_cons with ⟨first, others, words, _, noSeparator⟩
    rw [words] at equal
    rw [(List.cons.inj equal).1] at noSeparator
    exact noSeparator rfl
  cases left <;> cases right
  case false.false | true.true => exact ⟨rfl, by simpa [colonWords] using equal⟩
  case false.true => exact absurd equal (different _ _ _)
  case true.false => exact absurd equal.symm (different _ _ _)

theorem eq_of_append {left right : ItemPhrase} (formed : left.IsFormed) (formed' : right.IsFormed)
    {front back : List Word} (equal : left.words ++ front = right.words ++ back) :
    left = right ∧ front = back := by
  rcases left with ⟨attributes, visibility, leadingColon, tree⟩
  rcases right with ⟨attributes', visibility', leadingColon', tree'⟩
  simp only [words, List.append_assoc, List.cons_append, List.nil_append] at equal
  have stops : ∀ rest : List Word, Stops (⟨.semicolon, ";"⟩ :: rest) := by
    intro rest
    simp [stops_cons, Word.Closes]
  rcases eq_of_attributeWords_append (head_visibility_words _ _) (head_visibility_words _ _) equal with
    ⟨rfl, behindAttributes⟩
  rcases Visibility.eq_of_words_append formed formed' behindAttributes with ⟨rfl, behindUse⟩
  rcases eq_of_colonWords_append behindUse with ⟨rfl, behindColon⟩
  rcases TreePhrase.eq_of_append (stops _) (stops _) behindColon with ⟨rfl, behindTree⟩
  exact ⟨rfl, (List.cons.inj behindTree).2⟩

theorem words_ne_nil (item : ItemPhrase) : item.words ≠ [] := by
  simp [words]

theorem exists_words_eq_cons (item : ItemPhrase) :
    ∃ first rest, item.words = first :: rest ∧
      (first.kind = .attribute ∨ first.kind = .identifier) := by
  rw [words]
  cases item.attributes with
  | cons body others => exact ⟨_, _, rfl, .inl rfl⟩
  | nil => cases item.visibility <;> exact ⟨_, _, rfl, .inr rfl⟩

theorem exists_words_eq_concat (item : ItemPhrase) :
    ∃ front, item.words = front ++ [⟨.semicolon, ";"⟩] :=
  ⟨attributeWords item.attributes ++ (item.visibility.words ++ ⟨.identifier, "use"⟩ ::
    (colonWords item.leadingColon ++ item.tree.words)), by simp [words]⟩

/-- The grammar is unambiguous. -/
theorem eq_of_flatMap_words {left : List ItemPhrase} : ∀ {right : List ItemPhrase},
    (∀ item ∈ left, item.IsFormed) → (∀ item ∈ right, item.IsFormed) →
      left.flatMap words = right.flatMap words → left = right := by
  induction left with
  | nil =>
      intro right _ _ equal
      cases right with
      | nil => rfl
      | cons item others => exact absurd (List.append_eq_nil_iff.mp equal.symm).1 (words_ne_nil item)
  | cons item rest induction =>
      intro right formed formed' equal
      cases right with
      | nil => exact absurd (List.append_eq_nil_iff.mp equal).1 (words_ne_nil item)
      | cons item' others =>
          have parts := List.forall_mem_cons.mp formed
          have parts' := List.forall_mem_cons.mp formed'
          rw [List.flatMap_cons, List.flatMap_cons] at equal
          rcases eq_of_append parts.1 parts'.1 equal with ⟨rfl, behind⟩
          rw [induction parts.2 parts'.2 behind]

end ItemPhrase

end ImportBlock
