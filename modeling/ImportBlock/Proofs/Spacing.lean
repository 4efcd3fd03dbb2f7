import ImportBlock.Metadata
import ImportBlock.Proofs.Token
import Mathlib

/-! Spacing in attributes. Blanks that are put into an attribute, outside of its strings and not between
two letters, change the text of this attribute only: the other lexemes stay, and the attribute makes its
item depend on the build if it did so before. The text that an attribute is read as has its blanks joined
everywhere, in its strings as well. Between brackets it is read as itself. -/

namespace ImportBlock

/-! ## Places for blanks -/

namespace Lexeme

def endsInString : (inString : Bool) → List Char → Bool
  | inString, [] => inString
  | true, '\\' :: _ :: rest => endsInString true rest
  | true, '"' :: rest => endsInString false rest
  | true, _ :: rest => endsInString true rest
  | false, '"' :: rest => endsInString true rest
  | false, _ :: rest => endsInString false rest

/-- Whether blanks may stand between two parts of an attribute: outside of strings, and beside a
character that is neither a letter nor a digit. The brackets around the attribute count as such. -/
structure MayPart (front back : List Char) : Prop where
  outside : endsInString false front = false
  beside : (∀ c ∈ front.getLast?, c.isAlphanum = false) ∨ ∀ c ∈ back.head?, c.isAlphanum = false

/-- Outside of strings a part of an attribute can be replaced by one that takes as many brackets. -/
theorem encloses_append_congr {inString : Bool} {front back back' : List Char}
    (same : ∀ depth, Encloses depth false back ↔ Encloses depth false back')
    (outside : endsInString inString front = false) (depth : Nat) :
    Encloses depth inString (front ++ back) ↔ Encloses depth inString (front ++ back') := by
  fun_induction endsInString inString front generalizing depth with
  | case1 inString =>
      rw [outside]
      exact same depth
  | case2 c rest induction | case3 rest induction | case5 rest induction =>
      simpa [Encloses] using induction outside depth
  | case4 c rest notEscape notQuote induction =>
      have others : ∀ back, Encloses depth true (c :: (rest ++ back)) ↔
          Encloses depth true (rest ++ back) := by
        intro back
        rw [Encloses.eq_4 depth c _ _ notQuote]
        intro escaped tail backslash equal
        -- a backslash at the end of the front would leave the string open
        cases rest with
        | nil => cases outside
        | cons next rest => exact notEscape next rest backslash rfl
      rw [List.cons_append, List.cons_append, others, others]
      exact induction outside depth
  | case6 c rest notQuote induction =>
      by_cases opening : c = '['
      · subst opening
        simpa [Encloses] using induction outside (depth + 1)
      · by_cases closing : c = ']'
        · subst closing
          cases depth with
          | zero => simp [Encloses]
          | succ depth => simpa [Encloses] using induction outside depth
        · simpa [Encloses, notQuote, opening, closing] using induction outside depth

theorem encloses_append_of_blanks {blanks : List Char}
    (blank : ∀ c ∈ blanks, Text.isBlank c = true) (depth : Nat) (back : List Char) :
    Encloses depth false (blanks ++ back) ↔ Encloses depth false back := by
  induction blanks with
  | nil => rfl
  | cons c rest induction =>
      have parts := List.forall_mem_cons.mp blank
      rw [List.cons_append, encloses_cons_of_blank parts.1]
      exact induction parts.2

end Lexeme

/-! ## Gates -/

/-- How far a text has come towards `cfg` and a parenthesis. -/
inductive GateProgress
  | start
  | afterC
  | afterF
  | afterG
  | opened
  | refused
deriving DecidableEq

namespace GateProgress

/-- Blanks may stand in front of the word and behind it, but not in it. -/
def next (progress : GateProgress) (char : Char) : GateProgress :=
  if Text.isBlank char then
    if progress = .afterC ∨ progress = .afterF then .refused else progress
  else
    match progress with
    | .start => if char = 'c' then .afterC else .refused
    | .afterC => if char = 'f' then .afterF else .refused
    | .afterF => if char = 'g' then .afterG else .refused
    | .afterG => if char = '(' then .opened else .refused
    | .opened => .opened
    | .refused => .refused

def run (progress : GateProgress) (text : List Char) : GateProgress := text.foldl next progress

theorem run_cons (progress : GateProgress) (char : Char) (rest : List Char) :
    progress.run (char :: rest) = (progress.next char).run rest := rfl

theorem run_append (progress : GateProgress) (front back : List Char) :
    progress.run (front ++ back) = (progress.run front).run back := List.foldl_append

theorem run_eq_self {progress : GateProgress} {text : List Char}
    (stays : ∀ char ∈ text, progress.next char = progress) : progress.run text = progress := by
  induction text with
  | nil => rfl
  | cons char rest induction =>
      have parts := List.forall_mem_cons.mp stays
      rw [run_cons, parts.1, induction parts.2]

theorem run_opened (text : List Char) : opened.run text = opened :=
  run_eq_self fun char _ => by simp [next]

theorem run_refused (text : List Char) : refused.run text = refused :=
  run_eq_self fun char _ => by simp [next]

theorem run_blanks {progress : GateProgress} {blanks : List Char}
    (blank : ∀ char ∈ blanks, Text.isBlank char = true)
    (outside : ¬(progress = afterC ∨ progress = afterF)) : progress.run blanks = progress :=
  run_eq_self fun char member => by simp [next, blank char member, outside]

theorem next_blank {progress : GateProgress} {char : Char} (blank : Text.isBlank char = true) :
    progress.next char = progress.next ' ' ∧
      (progress.next ' ').next ' ' = progress.next ' ' ∧
        (progress.next ' ' = opened ↔ progress = opened) := by
  cases progress <;> simp [next, blank, Text.isBlank_space]

theorem run_squeeze (text : List Char) (progress : GateProgress) :
    progress.run (Text.squeeze text) = opened ↔ progress.run text = opened := by
  induction text generalizing progress with
  | nil => rfl
  | cons char rest induction =>
      rw [Text.squeeze_cons, run_cons, ← induction]
      cases blank : Text.isBlank char with
      | false => rw [Text.collapseStep_of_not_blank blank, run_cons]
      | true =>
          rcases @next_blank progress char blank with ⟨same, twice, opens⟩
          rw [same]
          rcases Text.collapseStep_of_blank blank (Text.squeeze rest) with
            ⟨none, equal⟩ | ⟨others, space, equal⟩ | ⟨_, _, equal⟩
          · rw [equal, none]
            exact opens.symm
          · rw [equal, space, run_cons, run_cons, twice]
          · rw [equal, run_cons]

theorem run_afterG_eq_opened_iff {text : List Char} :
    afterG.run text = opened ↔ (text.dropWhile Text.isBlank).head? = some '(' := by
  induction text with
  | nil => simp [run]
  | cons char rest induction =>
      rw [run_cons]
      cases blank : Text.isBlank char with
      | true =>
          have stays : afterG.next char = afterG := by simp [next, blank]
          rw [List.dropWhile_cons_of_pos blank, stays, induction]
      | false =>
          rw [List.dropWhile_cons_of_neg (by simp [blank]), List.head?_cons, Option.some.injEq]
          by_cases parenthesis : char = '('
          · subst parenthesis
            have opens : afterG.next '(' = opened := by decide
            simp [opens, run_opened]
          · have refuses : afterG.next char = refused := by simp [next, blank, parenthesis]
            simp [refuses, run_refused, parenthesis]

theorem exists_of_run {progress after : GateProgress} {letter : Char} {text : List Char}
    (unopened : progress ≠ opened)
    (only : ∀ char ∈ text.head?, char ≠ letter → progress.next char = refused)
    (takes : progress.next letter = after) (opens : progress.run text = opened) :
    ∃ rest, text = letter :: rest ∧ after.run rest = opened := by
  cases text with
  | nil => exact absurd opens unopened
  | cons char rest =>
      rw [run_cons] at opens
      by_cases equal : char = letter
      · subst equal
        exact ⟨rest, rfl, takes ▸ opens⟩
      · rw [only char rfl equal, run_refused] at opens
        cases opens

theorem exists_of_run_afterC {text : List Char} (opens : afterC.run text = opened) :
    ∃ rest, text = 'f' :: rest ∧ afterF.run rest = opened := by
  apply exists_of_run (by decide) _ (by decide) opens
  intro char _ different
  cases blank : Text.isBlank char <;> simp [next, blank, different]

theorem exists_of_run_afterF {text : List Char} (opens : afterF.run text = opened) :
    ∃ rest, text = 'g' :: rest ∧ afterG.run rest = opened := by
  apply exists_of_run (by decide) _ (by decide) opens
  intro char _ different
  cases blank : Text.isBlank char <;> simp [next, blank, different]

theorem exists_of_run_start {text : List Char}
    (visible : ∀ c ∈ text.head?, Text.isBlank c = false) (opens : start.run text = opened) :
    ∃ rest, text = 'c' :: rest ∧ afterC.run rest = opened := by
  apply exists_of_run (by decide) _ (by decide) opens
  intro char first different
  simp [next, visible char first, different]

theorem gates_eq_true_iff {text : List Char} (visible : ∀ c ∈ text.head?, Text.isBlank c = false) :
    Metadata.gates (String.ofList text) = true ↔ start.run text = opened := by
  constructor
  · intro gates
    unfold Metadata.gates at gates
    rw [String.toList_ofList] at gates
    split at gates
    · next rest =>
        have steps : start.next 'c' = afterC ∧ afterC.next 'f' = afterF ∧
            afterF.next 'g' = afterG := by decide
        rw [run_cons, run_cons, run_cons, steps.1, steps.2.1, steps.2.2, run_afterG_eq_opened_iff]
        exact beq_iff_eq.mp gates
    · cases gates
  · intro opens
    rcases exists_of_run_start visible opens with ⟨text, rfl, opens⟩
    rcases exists_of_run_afterC opens with ⟨text, rfl, opens⟩
    rcases exists_of_run_afterF opens with ⟨text, rfl, opens⟩
    rw [Metadata.gates, String.toList_ofList]
    exact beq_iff_eq.mpr (run_afterG_eq_opened_iff.mp opens)

theorem gates_collapse_iff (body : List Char) :
    Metadata.gates (String.ofList (Text.collapse body)) = true ↔ start.run body = opened := by
  have whole := List.takeWhile_append_dropWhile (p := Text.isBlank) (l := body)
  have lead : start.run body = start.run (body.dropWhile Text.isBlank) := by
    rw [← whole, run_append, run_blanks (fun _ member => List.mem_takeWhile_imp member) (by decide),
      whole]
  rw [lead, ← run_squeeze, Text.collapse_eq_squeeze]
  apply gates_eq_true_iff
  intro c first
  cases behind : body.dropWhile Text.isBlank with
  | nil =>
      rw [behind] at first
      cases first
  | cons d rest =>
      have visible : Text.isBlank d = false := by
        have head := List.head?_dropWhile_not Text.isBlank body
        rw [behind] at head
        simpa using head
      rw [behind, Text.squeeze_cons, Text.collapseStep_of_not_blank visible] at first
      cases first
      exact visible

theorem getLast?_of_run {text : List Char} :
    (start.run text = afterC → text.getLast? = some 'c') ∧
      (start.run text = afterF → text.getLast? = some 'f') := by
  rcases List.eq_nil_or_concat text with rfl | ⟨front, last, rfl⟩
  · exact ⟨nofun, nofun⟩
  · rw [List.concat_eq_append, run_append, List.getLast?_concat]
    have stops : ∀ progress : GateProgress, (progress.next last = afterC → last = 'c') ∧
        (progress.next last = afterF → last = 'f') := by
      intro progress
      unfold next
      grind
    have final := stops (start.run front)
    exact ⟨fun equal => congrArg some (final.1 equal), fun equal => congrArg some (final.2 equal)⟩

/-- Blanks that do not part two letters make no difference. -/
theorem run_insert {front blanks back : List Char} (blank : ∀ c ∈ blanks, Text.isBlank c = true)
    (beside : (∀ c ∈ front.getLast?, c.isAlphanum = false) ∨ ∀ c ∈ back.head?, c.isAlphanum = false) :
    start.run (front ++ blanks ++ back) = opened ↔ start.run (front ++ back) = opened := by
  rw [run_append, run_append, run_append]
  by_cases inside : start.run front = afterC ∨ start.run front = afterF
  · -- the letter that is missing cannot follow: it would stand beside a letter
    have closed : ¬(start.run front).run back = opened := by
      intro opens
      rcases inside with progress | progress <;> rw [progress] at opens
      · rcases exists_of_run_afterC opens with ⟨rest, rfl, _⟩
        simp [getLast?_of_run.1 progress, show 'c'.isAlphanum = true by decide,
          show 'f'.isAlphanum = true by decide] at beside
      · rcases exists_of_run_afterF opens with ⟨rest, rfl, _⟩
        simp [getLast?_of_run.2 progress, show 'f'.isAlphanum = true by decide,
          show 'g'.isAlphanum = true by decide] at beside
    cases blanks with
    | nil => rfl
    | cons c rest =>
        have refuses : (start.run front).next c = refused := by
          simp [next, blank c List.mem_cons_self, inside]
        rw [run_cons, refuses, run_refused, run_refused]
        simp [closed]
  · rw [run_blanks blank inside]

end GateProgress

theorem Metadata.gates_collapse_insert {front blanks back : List Char}
    (blank : ∀ c ∈ blanks, Text.isBlank c = true) (part : Lexeme.MayPart front back) :
    gates (String.ofList (Text.collapse (front ++ blanks ++ back))) =
      gates (String.ofList (Text.collapse (front ++ back))) := by
  rw [Bool.eq_iff_iff, GateProgress.gates_collapse_iff, GateProgress.gates_collapse_iff]
  exact GateProgress.run_insert blank part.beside

/-! ## Lexemes -/

namespace Lexeme

def outerAttribute (body : List Char) : Lexeme :=
  ⟨.token .attribute, '#' :: '[' :: (body ++ [']'])⟩

theorem word?_outerAttribute (body : List Char) :
    (outerAttribute body).word? = some ⟨.attribute, String.ofList (Text.collapse body)⟩ := by
  simp [word?, outerAttribute, text]

theorem scan_outerAttribute_append {body : List Char} (encloses : Encloses 0 false body)
    (rest : List Char) :
    scan ((outerAttribute body).source ++ rest) =
      (outerAttribute body :: (scan rest).1, (scan rest).2) := by
  have here : next '#' ('[' :: (body ++ [']']) ++ rest) =
      .ok (.token .attribute, ('[' :: (body ++ [']'])).length) := by
    rw [List.cons_append, List.append_assoc]
    change next '#' ('[' :: (body ++ ']' :: rest)) = _
    rw [next_outerAttribute (attributeLength_append encloses rest)]
    simp [Nat.add_comm]
  exact Text.scan_append here

theorem encloses_of_next {c : Char} {rest body : List Char} {kind : LexemeKind} {count : Nat}
    (found : next c rest = .ok (kind, count))
    (equal : ⟨kind, c :: rest.take count⟩ = outerAttribute body) : Encloses 0 false body := by
  have same : kind = .token .attribute := congrArg Lexeme.kind equal
  have source : c :: rest.take count = '#' :: '[' :: (body ++ [']']) :=
    congrArg Lexeme.source equal
  cases found_of_next found with
  | outerAttribute closed =>
      rcases outerAttribute_take closed with ⟨inner, enclosed, taken⟩
      rw [taken] at source
      have bodies : inner ++ [']'] = body ++ [']'] := by simpa using source
      rwa [← List.append_cancel_right bodies]
  | mark =>
      rw [LexemeKind.token.injEq] at same
      exact absurd same (punctuation_ne c).1
  | _ => cases same

theorem encloses_of_mem_scan {text body : List Char} (member : outerAttribute body ∈ (scan text).1) :
    Encloses 0 false body := by
  fun_induction scan text with
  | case1 => cases member
  | case2 => cases member
  | case3 c rest kind count found others induction =>
      rcases List.mem_cons.mp member with equal | inside
      · exact encloses_of_next found equal.symm
      · exact induction inside

theorem next_of_outerAttribute {c : Char} {rest : List Char} {kind : LexemeKind} {count : Nat}
    (found : next c rest = .ok (kind, count)) {front later : List Char} {body : List Char}
    (split : rest.drop count = front ++ ((outerAttribute body).source ++ later)) (body' : List Char) :
    next c (rest.take count ++ (front ++ ((outerAttribute body').source ++ later))) =
      .ok (kind, (rest.take count).length) := by
  have within := (found_of_next found).count_le
  have taken : (rest.take count).length = count := List.length_take_of_le within
  have barrier : ∀ body, IsBarrier ((outerAttribute body).source ++ later) := fun body =>
    .outerAttribute _
  have here : next c (rest.take count ++ front ++ ((outerAttribute body).source ++ later)) =
      .ok (kind, count) := by
    rw [List.append_assoc, ← split, List.take_append_drop]
    exact found
  rw [taken, ← List.append_assoc]
  exact next_of_barrier (barrier body) (barrier body') here (by rw [List.length_append]; omega)

/-- A text is cut into the same lexemes if the text between the brackets of one attribute changes. -/
theorem scan_replace {text : List Char} : ∀ {earlier later : List Lexeme} {body : List Char},
    scan text = (earlier ++ outerAttribute body :: later, none) → ∀ {body' : List Char},
      Encloses 0 false body' →
        scan ((earlier ++ outerAttribute body' :: later).flatMap (·.source)) =
          (earlier ++ outerAttribute body' :: later, none) := by
  induction text using scan.induct with
  | case1 =>
      intro earlier later body given
      rw [scan] at given
      simp at given
  | case2 c rest fault failed =>
      intro earlier later body given
      rw [scan, failed] at given
      simp at given
  | case3 c rest kind count found induction =>
      intro earlier later body given body' encloses
      rw [scan, found] at given
      have readable : (scan (rest.drop count)).2 = none := congrArg Prod.snd given
      have lexemes : ⟨kind, c :: rest.take count⟩ :: (scan (rest.drop count)).1 =
          earlier ++ outerAttribute body :: later := congrArg Prod.fst given
      have source := flatMap_source readable
      cases earlier with
      | nil =>
          have behind : (scan (rest.drop count)).1 = later := (List.cons.inj lexemes).2
          rw [List.nil_append, List.flatMap_cons, scan_outerAttribute_append encloses, ← behind, source,
            readable]
      | cons first earlier =>
          rw [List.cons_append, List.cons.injEq] at lexemes
          have behind : scan (rest.drop count) = (earlier ++ outerAttribute body :: later, none) :=
            Prod.ext lexemes.2 readable
          have others := induction behind encloses
          have split : rest.drop count = earlier.flatMap (·.source) ++
              ((outerAttribute body).source ++ later.flatMap (·.source)) := by
            rw [← source, lexemes.2, List.flatMap_append, List.flatMap_cons]
          have here := Text.scan_append (next_of_outerAttribute found split body')
          rw [← List.flatMap_cons, ← List.flatMap_append, others, lexemes.1] at here
          rw [List.cons_append, List.flatMap_cons, ← lexemes.1]
          rw [← lexemes.1] at here
          exact here

end Lexeme

/-! ## Texts -/

/-- What stays of a word however its attribute is spaced. -/
def Word.outline (word : Word) : Word × Bool :=
  if word.kind = .attribute then (⟨.attribute, ""⟩, Metadata.gates word.text) else (word, false)

namespace Text

/-- Whether a text is another one with blanks put into one of its attributes. -/
def IsSpaced (text text' : List Char) : Prop :=
  ∃ (earlier later : List Lexeme) (front blanks back : List Char),
    Lexeme.scan text = (earlier ++ Lexeme.outerAttribute (front ++ back) :: later, none) ∧
      (∀ c ∈ blanks, isBlank c = true) ∧ Lexeme.MayPart front back ∧
        text' = (earlier ++ Lexeme.outerAttribute (front ++ blanks ++ back) :: later).flatMap (·.source)

theorem isSpaced_cons {front blanks back rest : List Char} (readable : fault? rest = none)
    (encloses : Lexeme.Encloses 0 false (front ++ back)) (blank : ∀ c ∈ blanks, isBlank c = true)
    (part : Lexeme.MayPart front back) :
    IsSpaced ((Lexeme.outerAttribute (front ++ back)).source ++ rest)
      ((Lexeme.outerAttribute (front ++ blanks ++ back)).source ++ rest) := by
  refine ⟨[], (Lexeme.scan rest).1, front, blanks, back, ?_, blank, part, ?_⟩
  · rw [Lexeme.scan_outerAttribute_append encloses]
    exact Prod.ext rfl readable
  · rw [List.nil_append, List.flatMap_cons, Lexeme.flatMap_source readable]

/-- Whether one text becomes another by putting blanks into attributes and by taking them out again. -/
def Respaced : List Char → List Char → Prop := Relation.EqvGen IsSpaced

theorem respaced_unix {rest : String} (readable : fault? rest.toList = none) :
    Respaced ("#[cfg(unix)]" ++ rest).toList ("#[cfg( unix)]" ++ rest).toList := by
  have encloses : Lexeme.Encloses 0 false (['c', 'f', 'g', '('] ++ ['u', 'n', 'i', 'x', ')']) := by
    simp [Lexeme.Encloses]
  have part : Lexeme.MayPart ['c', 'f', 'g', '('] ['u', 'n', 'i', 'x', ')'] :=
    ⟨by simp [Lexeme.endsInString], .inl (by simp)⟩
  have blank : ∀ c ∈ [' '], isBlank c = true := by simp [isBlank_space]
  rw [String.toList_append, String.toList_append]
  exact .rel _ _ (isSpaced_cons readable encloses blank part)

theorem IsSpaced.outlines {text text' : List Char} (spaced : IsSpaced text text') :
    (words text).map Word.outline = (words text').map Word.outline := by
  rcases spaced with ⟨earlier, later, front, blanks, back, given, blank, part, rfl⟩
  have encloses : Lexeme.Encloses 0 false (front ++ back) := by
    apply @Lexeme.encloses_of_mem_scan text
    rw [given]
    exact List.mem_append_right _ List.mem_cons_self
  have encloses' : Lexeme.Encloses 0 false (front ++ blanks ++ back) := by
    rw [List.append_assoc]
    exact (Lexeme.encloses_append_congr
      (fun depth => Lexeme.encloses_append_of_blanks blank depth back) part.outside 0).mpr encloses
  have given' := Lexeme.scan_replace given encloses'
  rw [words, words, given, given']
  simp only [List.filterMap_append, List.filterMap_cons, Lexeme.word?_outerAttribute, List.map_append,
    List.map_cons, Word.outline, if_true, Metadata.gates_collapse_insert blank part]

theorem Respaced.outlines {text text' : List Char} (respaced : Respaced text text') :
    (words text).map Word.outline = (words text').map Word.outline := by
  induction respaced with
  | rel _ _ spaced => exact spaced.outlines
  | refl => rfl
  | symm _ _ _ induction => exact induction.symm
  | trans _ _ _ _ _ first second => exact first.trans second

end Text

/-! ## Normal spacing -/

theorem Metadata.tokens_bracketed {body : String} (written : IsAttribute body) (start : Nat)
    (rest : List Char) :
    Text.tokens start ((bracketed body).toList ++ rest) =
      ⟨.attribute, body, start, start + (bracketed body).length⟩ ::
        Text.tokens (start + (bracketed body).length) rest := by
  rw [(fills_bracketed written rest).tokens_eq, String.length_toList]

/-- The text of an attribute of either kind, between the brackets of an outer one and in front of any other
text, is one token with that text, and it ends with its closing bracket. What stands behind is cut as it
is by itself. -/
theorem TokenStream.tokens_ofText_bracketed {text : List Char} {token : Token}
    (member : token ∈ (ofText text).tokens)
    (isAttribute : token.kind = .attribute ∨ token.kind = .innerAttribute) (rest : String) :
    (ofText (Metadata.bracketed token.text ++ rest).toList).tokens =
      ⟨.attribute, token.text, 0, (Metadata.bracketed token.text).length⟩ ::
        Text.tokens (Metadata.bracketed token.text).length rest.toList := by
  have spelled : token.word ∈ Text.words text := by
    rw [← Text.map_word_tokens 0]
    exact List.mem_map_of_mem member
  rcases Text.exists_next_of_mem_words spelled with ⟨c, tail, kind, count, found, equal⟩
  rcases Word.mk.inj equal with ⟨sameKind, sameText⟩
  rw [sameKind] at isAttribute
  have written : Metadata.IsAttribute token.text := by
    rw [sameText]
    exact Lexeme.isAttribute_of_next found isAttribute
  have tokens := Metadata.tokens_bracketed written 0 rest.toList
  rw [Nat.zero_add] at tokens
  rw [String.toList_append]
  exact tokens

/-- The blanks behind a backslash join as well, and a bracket in the string closes nothing. -/
theorem TokenStream.tokens_ofText_bracketed_escape :
    (⟨.innerAttribute, "doc = \"] \\ \\\" \"", 1, 23⟩ : Token) ∈
        (ofText " #![doc  = \"]\t\\ \n\\\" \"\n] /*".toList).tokens ∧
      (ofText "#[doc = \"] \\ \\\" \"]\"[/*".toList).tokens =
        ⟨.attribute, "doc = \"] \\ \\\" \"", 0, 18⟩ ::
          Text.tokens 18 "\"[/*".toList := by
  have read : (ofText " #![doc  = \"]\t\\ \n\\\" \"\n] /*".toList).tokens =
      [⟨.innerAttribute, "doc = \"] \\ \\\" \"", 1, 23⟩] := by cbv
  have member := List.mem_singleton_self (⟨.innerAttribute, "doc = \"] \\ \\\" \"", 1, 23⟩ : Token)
  rw [← read] at member
  exact ⟨member, tokens_ofText_bracketed member (.inr rfl) "\"[/*"⟩

end ImportBlock
