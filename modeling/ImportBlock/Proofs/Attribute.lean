import ImportBlock.Lexeme
import ImportBlock.Proofs.Text.Blank

/-! What the brackets of an attribute enclose. They enclose the same text with its blanks collapsed,
too: blanks are dropped and joined only where other blanks stay, or outside of strings. -/

namespace ImportBlock

namespace Lexeme

/-- Whether a closing bracket behind a text closes all that is open in front of it: `depth` brackets
around it, and a string if one is. -/
def Encloses : (depth : Nat) → (inString : Bool) → List Char → Prop
  | depth, inString, [] => depth = 0 ∧ inString = false
  | depth, true, '\\' :: _ :: rest => Encloses depth true rest
  | depth, true, '"' :: rest => Encloses depth false rest
  | depth, true, _ :: rest => Encloses depth true rest
  | depth, false, '"' :: rest => Encloses depth true rest
  | depth, false, '[' :: rest => Encloses (depth + 1) false rest
  | 0, false, ']' :: _ => False
  | depth + 1, false, ']' :: rest => Encloses depth false rest
  | depth, false, _ :: rest => Encloses depth false rest

theorem exists_of_attributeLength {depth : Nat} {inString : Bool} {text : List Char} {length : Nat}
    (closed : attributeLength depth inString text = some length) :
    ∃ body rest, text = body ++ ']' :: rest ∧ length = body.length + 1 ∧
      Encloses depth inString body := by
  fun_induction attributeLength depth inString text generalizing length with
  | case1 => cases closed
  | case2 depth c rest induction =>
      rcases Option.map_eq_some_iff.mp closed with ⟨inner, found, rfl⟩
      rcases induction found with ⟨body, tail, rfl, rfl, enclosed⟩
      exact ⟨'\\' :: c :: body, tail, rfl, rfl, by rwa [Encloses]⟩
  | case4 depth c rest notEscape notQuote induction =>
      rcases Option.map_eq_some_iff.mp closed with ⟨inner, found, rfl⟩
      rcases induction found with ⟨body, tail, rfl, rfl, enclosed⟩
      refine ⟨c :: body, tail, rfl, rfl, ?_⟩
      rw [Encloses]
      · exact enclosed
      · intro escaped others backslash equal
        exact notEscape escaped (others ++ ']' :: tail) backslash (by rw [equal]; rfl)
      · exact notQuote
  | case7 tail => exact ⟨[], tail, rfl, (Option.some.inj closed).symm, rfl, rfl⟩
  | case9 depth c rest notQuote notOpening notClosing notInner induction =>
      rcases Option.map_eq_some_iff.mp closed with ⟨inner, found, rfl⟩
      rcases induction found with ⟨body, tail, rfl, rfl, enclosed⟩
      refine ⟨c :: body, tail, rfl, rfl, ?_⟩
      rwa [Encloses.eq_9 depth c body notQuote notOpening notClosing notInner]
  | case3 depth rest induction | case5 depth rest induction | case6 depth rest induction
  | case8 depth rest induction =>
      rcases Option.map_eq_some_iff.mp closed with ⟨inner, found, rfl⟩
      rcases induction found with ⟨body, tail, rfl, rfl, enclosed⟩
      exact ⟨_ :: body, tail, rfl, rfl, by simpa only [Encloses] using enclosed⟩

theorem attributeLength_append {depth : Nat} {inString : Bool} {body : List Char}
    (enclosed : Encloses depth inString body) (rest : List Char) :
    attributeLength depth inString (body ++ ']' :: rest) = some (body.length + 1) := by
  fun_induction Encloses depth inString body with
  | case1 depth inString =>
      rcases enclosed with ⟨rfl, rfl⟩
      rfl
  | case4 depth c others notEscape notQuote induction =>
      have length := induction enclosed
      rw [List.cons_append, attributeLength.eq_4 depth c _ _ notQuote, length]
      · rfl
      · intro escaped tail backslash equal
        cases others with
        | nil => cases enclosed.2
        | cons other others => exact notEscape other others backslash rfl
  | case7 => cases enclosed
  | _ => simp_all [attributeLength]

/-! ## Collapsing -/

theorem encloses_cons_of_blank {c : Char} (blank : Text.isBlank c = true) (depth : Nat)
    (inString : Bool) (rest : List Char) :
    Encloses depth inString (c :: rest) ↔ Encloses depth inString rest := by
  have different : c ≠ '\\' ∧ c ≠ '"' ∧ c ≠ '[' ∧ c ≠ ']' := by
    refine ⟨?_, ?_, ?_, ?_⟩ <;> intro equal <;> rw [equal] at blank <;> revert blank <;> decide
  cases inString <;> simp [Encloses, different]

theorem encloses_collapseStep_of_blank {c : Char} (blank : Text.isBlank c = true) (depth : Nat)
    (inString : Bool) (rest : List Char) :
    Encloses depth inString (Text.collapseStep c rest) ↔ Encloses depth inString rest := by
  rcases Text.collapseStep_of_blank blank rest with ⟨none, equal⟩ | ⟨_, _, equal⟩ | ⟨_, _, equal⟩
  · rw [equal, none]
  · rw [equal]
  · rw [equal, encloses_cons_of_blank Text.isBlank_space]

theorem encloses_squeeze {depth : Nat} {inString : Bool} {body : List Char}
    (enclosed : Encloses depth inString body) : Encloses depth inString (Text.squeeze body) := by
  fun_induction Encloses depth inString body with
  | case1 => exact enclosed
  | case2 depth c rest induction =>
      have inner := induction enclosed
      rw [Text.squeeze_cons, Text.collapseStep_of_not_blank (by decide), Text.squeeze_cons]
      cases blank : Text.isBlank c with
      | false => rwa [Text.collapseStep_of_not_blank blank, Encloses]
      | true =>
          rcases Text.collapseStep_of_blank blank (Text.squeeze rest) with
            ⟨none, _⟩ | ⟨others, space, equal⟩ | ⟨_, _, equal⟩
          · rw [none] at inner
            cases inner.2
          · rw [equal, space, Encloses]
            rwa [space, encloses_cons_of_blank Text.isBlank_space] at inner
          · rwa [equal, Encloses]
  | case4 depth c rest notEscape notQuote induction =>
      have inner := induction enclosed
      rw [Text.squeeze_cons]
      cases blank : Text.isBlank c with
      | false =>
          rw [Text.collapseStep_of_not_blank blank, Encloses.eq_4 depth c _ _ notQuote]
          · exact inner
          · intro escaped tail backslash equal
            cases rest with
            | nil => cases enclosed.2
            | cons other others => exact notEscape other others backslash rfl
      | true => rwa [encloses_collapseStep_of_blank blank]
  | case7 => cases enclosed
  | case9 depth c rest notQuote notOpening notClosing notInner induction =>
      have inner := induction enclosed
      rw [Text.squeeze_cons]
      cases blank : Text.isBlank c with
      | false =>
          rw [Text.collapseStep_of_not_blank blank,
            Encloses.eq_9 depth c _ notQuote notOpening notClosing notInner]
          exact inner
      | true => rwa [encloses_collapseStep_of_blank blank]
  | case3 depth rest induction | case5 depth rest induction | case6 depth rest induction
  | case8 depth rest induction =>
      have inner := induction enclosed
      rw [Text.squeeze_cons, Text.collapseStep_of_not_blank (by decide)]
      simpa only [Encloses] using inner

theorem encloses_dropWhile {depth : Nat} {inString : Bool} {body : List Char}
    (enclosed : Encloses depth inString body) :
    Encloses depth inString (body.dropWhile Text.isBlank) := by
  induction body with
  | nil => exact enclosed
  | cons c rest induction =>
      cases blank : Text.isBlank c with
      | false => rwa [List.dropWhile_cons_of_neg (by simp [blank])]
      | true =>
          rw [List.dropWhile_cons_of_pos blank]
          exact induction ((encloses_cons_of_blank blank depth inString rest).mp enclosed)

theorem encloses_collapse {depth : Nat} {inString : Bool} {body : List Char}
    (enclosed : Encloses depth inString body) : Encloses depth inString (Text.collapse body) := by
  rw [Text.collapse_eq_squeeze]
  exact encloses_squeeze (encloses_dropWhile enclosed)

end Lexeme

end ImportBlock
