import ImportBlock.Proofs.Frame
import Mathlib

/-! Where tokens stand: one behind the other, and all of them in front of what has no end. -/

namespace ImportBlock

namespace Lexeme

/-- What a text begins with where it cannot be cut any further. -/
inductive IsOpen : LexicalFault → List Char → Prop
  | comment {tail : List Char} (endless : commentLength 0 tail = none) :
      IsOpen .openComment ('/' :: '*' :: tail)
  | outerAttribute {tail : List Char} (endless : attributeLength 0 false tail = none) :
      IsOpen .openAttribute ('#' :: '[' :: tail)
  | innerAttribute {tail : List Char} (endless : attributeLength 0 false tail = none) :
      IsOpen .openAttribute ('#' :: '!' :: '[' :: tail)

theorem of_closed_eq_error {fault fault' : LexicalFault} {kind : LexemeKind} {before : Nat}
    {length : Option Nat} (failed : closed fault kind before length = .error fault') :
    length = none ∧ fault' = fault := by
  cases length with
  | none =>
      cases failed
      exact ⟨rfl, rfl⟩
  | some _ => cases failed

theorem isOpen_of_next {c : Char} {rest : List Char} {fault : LexicalFault}
    (failed : next c rest = .error fault) : IsOpen fault (c :: rest) := by
  unfold next at failed
  split at failed
  · cases failed
  · split at failed
    · next slash =>
        subst slash
        unfold afterSlash at failed
        split at failed
        · cases failed
        · rcases of_closed_eq_error failed with ⟨endless, rfl⟩
          exact .comment endless
        · cases failed
    · split at failed
      · next sign =>
          subst sign
          unfold afterSign at failed
          split at failed
          · rcases of_closed_eq_error failed with ⟨endless, rfl⟩
            exact .outerAttribute endless
          · rcases of_closed_eq_error failed with ⟨endless, rfl⟩
            exact .innerAttribute endless
          · cases failed
      · split at failed
        · cases failed
        · split at failed <;> cases failed

theorem isOpen_of_scan {text : List Char} {fault : LexicalFault}
    (faulty : (scan text).2 = some fault) :
    IsOpen fault (text.drop ((scan text).1.flatMap (·.source)).length) := by
  fun_induction scan text with
  | case1 => cases faulty
  | case2 c rest fault' failed =>
      cases faulty
      exact isOpen_of_next failed
  | case3 c rest kind count found others induction =>
      rw [List.flatMap_cons, List.length_append, ← Text.cons_take_append_drop c rest count,
        List.drop_length_add_append]
      exact induction faulty

end Lexeme

namespace Text

theorem start_lt_stop {text : List Char} {token : Token} : ∀ {start : Nat},
    token ∈ tokens start text → token.start < token.stop := by
  induction text using Lexeme.scan.induct with
  | case1 =>
      intro start member
      rw [tokens_nil] at member
      cases member
  | case2 c rest fault failed =>
      intro start member
      rw [tokens_of_error failed] at member
      cases member
  | case3 c rest kind count found induction =>
      intro start member
      rw [tokens_cons found] at member
      rcases List.mem_append.mp member with here | behind
      · cases kind with
        | token kind =>
            rw [List.mem_singleton.mp here]
            simp
        | _ => cases here
      · exact induction behind

theorem stop_le_of_mem_ofLexemes {lexemes : List Lexeme} {token : Token} : ∀ {start : Nat},
    token ∈ Token.ofLexemes start lexemes →
      token.stop ≤ start + (lexemes.flatMap (·.source)).length := by
  induction lexemes with
  | nil => exact nofun
  | cons lexeme rest induction =>
      intro start member
      rw [List.flatMap_cons, List.length_append, ← Nat.add_assoc]
      rw [Token.ofLexemes] at member
      cases kind : lexeme.kind with
      | token _ =>
          rw [kind] at member
          rcases List.mem_cons.mp member with rfl | inside
          · exact Nat.le_add_right _ _
          · exact induction inside
      | _ =>
          rw [kind] at member
          exact induction member

theorem stop_le_start {text : List Char} {front back : List Token} {token other : Token}
    (given : tokens 0 text = front ++ token :: back) (behind : other ∈ back) :
    token.stop ≤ other.start := by
  rcases exists_cut given with ⟨_, _, rest, cut⟩
  rw [← cut.tokens] at behind
  exact le_start_of_mem_ofLexemes behind

/-- The tokens that end in front of a place. -/
def tokensBefore (text : List Char) (offset : Nat) : List Token :=
  (tokens 0 text).filter fun token => token.stop ≤ offset

theorem tokensBefore_start {text : List Char} {front back : List Token} {token : Token}
    (given : tokens 0 text = front ++ token :: back) :
    tokensBefore text token.start = front := by
  have before : ∀ other ∈ front, other.stop ≤ token.start := by
    intro other member
    rcases List.mem_iff_append.mp member with ⟨first, second, rfl⟩
    rw [List.append_assoc, List.cons_append] at given
    exact stop_le_start given (by simp)
  have longer : ∀ other ∈ token :: back, other.start < other.stop := by
    intro other member
    exact @start_lt_stop text other 0 (by rw [given]; exact List.mem_append_right _ member)
  have after : ∀ other ∈ token :: back, token.start < other.stop := by
    intro other member
    have here := longer token List.mem_cons_self
    rcases List.mem_cons.mp member with rfl | inside
    · exact here
    · have there := longer other member
      have behind := stop_le_start given inside
      omega
  rw [tokensBefore, given, List.filter_append, List.filter_eq_self.mpr (by simpa using before),
    List.filter_eq_nil_iff.mpr (by simpa using after), List.append_nil]

theorem eq_of_start {text : List Char} {token other : Token} (member : token ∈ tokens 0 text)
    (member' : other ∈ tokens 0 text) (same : other.start = token.start) : other = token := by
  rcases List.mem_iff_append.mp member with ⟨front, back, given⟩
  have here := start_lt_stop member
  have there := start_lt_stop member'
  rw [given, List.mem_append, List.mem_cons] at member'
  rcases member' with before | equal | behind
  · rcases List.mem_iff_append.mp before with ⟨first, second, rfl⟩
    rw [List.append_assoc, List.cons_append] at given
    have earlier : other.stop ≤ token.start := stop_le_start given (by simp)
    omega
  · exact equal
  · have later := stop_le_start given behind
    omega

/-- How many characters the lexemes of a text take up. -/
def covered (text : List Char) : Nat := ((Lexeme.scan text).1.flatMap (·.source)).length

theorem covered_le (text : List Char) : covered text ≤ text.length :=
  (Lexeme.flatMap_source_prefix text).length_le

theorem stop_le_covered {text : List Char} {token : Token} (member : token ∈ tokens 0 text) :
    token.stop ≤ covered text := by
  have within := stop_le_of_mem_ofLexemes member
  rwa [Nat.zero_add] at within

theorem tokensBefore_of_covered_le {text : List Char} {offset : Nat}
    (within : covered text ≤ offset) : tokensBefore text offset = tokens 0 text := by
  rw [tokensBefore, List.filter_eq_self]
  intro token member
  exact decide_eq_true (Nat.le_trans (stop_le_covered member) within)

theorem start_ne_of_covered_le {text : List Char} {offset : Nat} (within : covered text ≤ offset)
    {token : Token} (member : token ∈ tokens 0 text) : token.start ≠ offset := by
  have longer := start_lt_stop member
  have stops := stop_le_covered member
  omega

end Text

end ImportBlock
