import ImportBlock.Identifier
import Mathlib.Data.List.TakeWhile

/-! Identifiers at the start of a text end where no character can continue them. -/

theorem ImportBlock.takeWhile_append_of_stopped {p : Char → Bool} {tail : List Char}
    (stopped : tail.takeWhile p = []) (text : List Char) :
    (text ++ tail).takeWhile p = text.takeWhile p := by
  rw [List.takeWhile_append, stopped, List.append_nil]
  split
  · next whole => exact ((List.takeWhile_prefix p).eq_of_length whole).symm
  · rfl

namespace ImportBlock.Identifier

/-- Whether a text is one identifier from its first character to its last. -/
def IsWord : List Char → Prop
  | [] => False
  | c :: rest => following c rest = some rest.length

instance (text : List Char) : Decidable (IsWord text) :=
  match text with
  | [] => inferInstanceAs (Decidable False)
  | c :: rest => inferInstanceAs (Decidable (following c rest = some rest.length))

/-- Whether an identifier in front of a text ends there. -/
def Ends (rest : List Char) : Prop := ∀ c ∈ rest.head?, continues c = false ∧ c ≠ '#'

theorem ends_cons {c : Char} (ends : continues c = false ∧ c ≠ '#') (rest : List Char) :
    Ends (c :: rest) := by
  intro first head
  cases head
  exact ends

theorem continues_number_sign : continues '#' = false := by decide

/-- Whether a text goes on with a number sign and an identifier behind the letter `r`. -/
def IsRaw (c : Char) (rest : List Char) : Prop :=
  ∃ first others, c = 'r' ∧ rest = '#' :: first :: others ∧ starts first = true

theorem following_of_starts {first : Char} (start : starts first = true) (others : List Char) :
    following 'r' ('#' :: first :: others) = some (2 + (others.takeWhile continues).length) := by
  rw [following, if_pos start]

theorem following_of_not_isRaw {c : Char} {rest : List Char} (plain : ¬IsRaw c rest) :
    following c rest = if starts c then some (rest.takeWhile continues).length else none := by
  unfold following
  split
  · next first others =>
      rw [if_neg fun start => plain ⟨first, others, rfl, rfl, start⟩]
      rw [List.takeWhile_cons_of_neg (by rw [continues_number_sign]; decide)]
      rfl
  · rfl

theorem starts_of_following {c : Char} {rest : List Char} {count : Nat}
    (found : following c rest = some count) : starts c = true := by
  by_cases raw : IsRaw c rest
  · rcases raw with ⟨_, _, rfl, _⟩
    decide
  · rw [following_of_not_isRaw raw] at found
    cases start : starts c with
    | false => simp [start] at found
    | true => rfl

theorem number_sign_not_mem_takeWhile (text : List Char) : '#' ∉ text.takeWhile continues := by
  intro member
  have continued := List.mem_takeWhile_imp member
  rw [continues_number_sign] at continued
  cases continued

theorem take_length_takeWhile (text : List Char) :
    text.take (text.takeWhile continues).length = text.takeWhile continues :=
  (List.prefix_iff_eq_take.mp (List.takeWhile_prefix continues)).symm

theorem isWord_take {c : Char} {rest : List Char} {count : Nat}
    (found : following c rest = some count) :
    count ≤ rest.length ∧ IsWord (c :: rest.take count) := by
  have start := starts_of_following found
  by_cases raw : IsRaw c rest
  · rcases raw with ⟨first, others, rfl, rfl, start⟩
    rw [following_of_starts start, Option.some.injEq] at found
    have shorter := (List.takeWhile_prefix continues (l := others)).length_le
    refine ⟨by simp only [List.length_cons]; omega, ?_⟩
    have taken : ('#' :: first :: others).take count =
        '#' :: first :: others.takeWhile continues := by
      rw [← found, Nat.add_comm, List.take_succ_cons, List.take_succ_cons,
        take_length_takeWhile]
    rw [taken, IsWord, following_of_starts start, List.takeWhile_idem]
    simp only [List.length_cons, Option.some.injEq]
    omega
  · rw [following_of_not_isRaw raw, if_pos start, Option.some.injEq] at found
    refine ⟨found ▸ (List.takeWhile_prefix continues).length_le, ?_⟩
    have plain : ¬IsRaw c (rest.takeWhile continues) := by
      intro raw
      rcases raw with ⟨first, others, _, equal, _⟩
      exact number_sign_not_mem_takeWhile rest (equal ▸ List.mem_cons_self)
    rw [← found, take_length_takeWhile, IsWord, following_of_not_isRaw plain, if_pos start,
      List.takeWhile_idem]

theorem continues_of_starts {c : Char} (start : starts c = true) : continues c = true := by
  simp only [starts, Bool.or_eq_true] at start
  simp only [continues, Char.isAlphanum, Bool.or_eq_true]
  exact start.imp_left .inl

/-! ## In front of other text -/

section Append

variable {tail : List Char} (ends : Ends tail)

include ends

theorem takeWhile_append_of_ends (text : List Char) :
    (text ++ tail).takeWhile continues = text.takeWhile continues := by
  apply takeWhile_append_of_stopped
  cases tail with
  | nil => rfl
  | cons first others => simp [(ends first rfl).1]

theorem isRaw_append_iff {c : Char} (rest : List Char) : IsRaw c (rest ++ tail) ↔ IsRaw c rest := by
  constructor
  · intro raw
    rcases raw with ⟨first, others, letter, equal, start⟩
    rcases rest with _ | ⟨sign, _ | ⟨next, rest⟩⟩
    · exact absurd rfl (ends '#' (by rw [← List.nil_append tail, equal]; rfl)).2
    · have behind : tail = first :: others := (List.cons.inj equal).2
      have continued := continues_of_starts start
      rw [(ends first (by rw [behind]; rfl)).1] at continued
      cases continued
    · cases equal
      exact ⟨first, rest, letter, rfl, start⟩
  · intro raw
    rcases raw with ⟨first, others, letter, rfl, start⟩
    exact ⟨first, others ++ tail, letter, rfl, start⟩

theorem following_append (c : Char) (rest : List Char) :
    following c (rest ++ tail) = following c rest := by
  by_cases raw : IsRaw c rest
  · rcases raw with ⟨first, others, rfl, rfl, start⟩
    rw [List.cons_append, List.cons_append, following_of_starts start, following_of_starts start,
      takeWhile_append_of_ends ends]
  · rw [following_of_not_isRaw raw,
      following_of_not_isRaw fun raw' => raw ((isRaw_append_iff ends rest).mp raw'),
      takeWhile_append_of_ends ends]

end Append

/-- An identifier is spelled with characters that continue it, but for the number sign behind `r`. -/
theorem continues_of_mem {word : List Char} (identifier : IsWord word) {c : Char}
    (member : c ∈ word) : continues c = true ∨ c = '#' := by
  have whole : ∀ {text : List Char}, (text.takeWhile continues).length = text.length →
      ∀ c ∈ text, continues c = true :=
    fun length => List.takeWhile_eq_self_iff.mp
      ((List.takeWhile_prefix continues).eq_of_length length)
  rcases word with _ | ⟨first, rest⟩
  · cases member
  have begins := starts_of_following identifier
  by_cases raw : IsRaw first rest
  · rcases raw with ⟨next, others, rfl, rfl, start'⟩
    rw [IsWord, following_of_starts start', Option.some.injEq] at identifier
    have length : (others.takeWhile continues).length = others.length := by
      simp only [List.length_cons] at identifier
      omega
    simp only [List.mem_cons] at member
    rcases member with rfl | rfl | rfl | inside
    · exact .inl (continues_of_starts begins)
    · exact .inr rfl
    · exact .inl (continues_of_starts start')
    · exact .inl (whole length c inside)
  · rw [IsWord, following_of_not_isRaw raw, if_pos begins, Option.some.injEq] at identifier
    rcases List.mem_cons.mp member with rfl | inside
    · exact .inl (continues_of_starts begins)
    · exact .inl (whole identifier c inside)

theorem line_feed_not_mem {word : List Char} (identifier : IsWord word) : '\n' ∉ word := by
  intro member
  have found := continues_of_mem identifier member
  revert found
  decide

/-- Apart from the line feed that it lets through, `accepts` accepts identifiers only. -/
theorem isWord_of_accepts {text : List Char} (accepted : accepts text = true)
    (noFeed : text.getLast? ≠ some '\n') : IsWord text := by
  -- What follows the characters of an identifier could only be the line feed at the end.
  have whole : ∀ {front rest : List Char}, text = front ++ rest →
      (rest.dropWhile continues == [] || rest.dropWhile continues == ['\n']) = true →
        (rest.takeWhile continues).length = rest.length := by
    intro front rest equal stopped
    have parts := List.takeWhile_append_dropWhile (p := continues) (l := rest)
    rw [Bool.or_eq_true, beq_iff_eq, beq_iff_eq] at stopped
    rcases stopped with none | feed
    · rw [none, List.append_nil] at parts
      rw [parts]
    · rw [equal, ← parts, feed, ← List.append_assoc, List.getLast?_concat] at noFeed
      exact absurd rfl noFeed
  by_cases raw : ∃ rest, text = 'r' :: '#' :: rest
  · rcases raw with ⟨rest, rfl⟩
    rcases rest with _ | ⟨first, others⟩
    · cases accepted
    · simp only [accepts, Bool.and_eq_true] at accepted
      have length := @whole ['r', '#', first] others rfl accepted.2
      rw [IsWord, following_of_starts accepted.1, length]
      simp only [List.length_cons, Option.some.injEq]
      omega
  · rcases text with _ | ⟨first, rest⟩
    · cases accepted
    · have plain : ¬IsRaw first rest := by
        intro isRaw
        rcases isRaw with ⟨next, others, rfl, rfl, _⟩
        exact raw ⟨next :: others, rfl⟩
      unfold accepts at accepted
      split at accepted
      · next rest' equal => exact absurd ⟨rest', equal⟩ raw
      · simp only [Bool.and_eq_true] at accepted
        have length := @whole [first] rest rfl accepted.2
        rw [IsWord, following_of_not_isRaw plain, if_pos accepted.1, length]

theorem accepts_of_isWord {text : List Char} (isWord : IsWord text) : accepts text = true := by
  have whole : ∀ {rest : List Char}, (rest.takeWhile continues).length = rest.length →
      rest.dropWhile continues = [] := by
    intro rest length
    rw [List.dropWhile_eq_nil_iff]
    exact List.takeWhile_eq_self_iff.mp ((List.takeWhile_prefix continues).eq_of_length length)
  rcases text with _ | ⟨first, rest⟩
  · cases isWord
  have start := starts_of_following isWord
  by_cases raw : IsRaw first rest
  · rcases raw with ⟨next, others, rfl, rfl, start'⟩
    rw [IsWord, following_of_starts start', Option.some.injEq] at isWord
    have length : (others.takeWhile continues).length = others.length := by
      simp only [List.length_cons] at isWord
      omega
    simp [accepts, start', whole length]
  · rw [IsWord, following_of_not_isRaw raw, if_pos start, Option.some.injEq] at isWord
    unfold accepts
    split
    · next sign others equal =>
        cases equal
        rw [List.takeWhile_cons_of_neg (by rw [continues_number_sign]; decide)] at isWord
        cases isWord
    · simp [start, whole isWord]

end ImportBlock.Identifier
