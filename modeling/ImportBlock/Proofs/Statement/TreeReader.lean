import ImportBlock.Statement.TreeReader
import ImportBlock.Proofs.Phrase

/-! Reading use trees. The words of a derivation lead to its tree, and whatever leads to a tree is a
derivation of it. -/

namespace ImportBlock

namespace TreeState

def step (state : TreeState) (word : Word) : Option TreeState :=
  let token : Token := ⟨word.kind, word.text, 0, 0⟩
  (state.settle (some token)).take token

theorem take_settle (state : TreeState) (token : Token) :
    (state.settle (some token)).take token = state.step token.word := by
  have settled : ∀ state : TreeState,
      state.settle (some token) = state.settle (some ⟨token.kind, token.text, 0, 0⟩) := by
    intro state
    cases state <;> rfl
  have taken : ∀ state : TreeState, state.take token = state.take ⟨token.kind, token.text, 0, 0⟩ := by
    intro state
    cases state <;> rfl
  rw [settled, taken]
  rfl

def run (state : TreeState) (words : List Word) : Option TreeState := words.foldlM step state

theorem run_append (state : TreeState) (front back : List Word) :
    state.run (front ++ back) = (state.run front).bind fun next => next.run back :=
  List.foldlM_append

/-! ## The words of a derivation -/

/-- Whether a state is that behind a tree, once a word shows that the tree ends. -/
def IsBehind (tree : UseTree) (outer : List OpenTree) (state : TreeState) : Prop :=
  ∀ token : Token, token.word.Closes → state.settle (some token) = close tree outer

theorem step_of_isBehind {tree : UseTree} {outer : List OpenTree} {state : TreeState}
    (behind : IsBehind tree outer state) {word : Word} (closes : word.Closes) :
    state.step word = (close tree outer).take ⟨word.kind, word.text, 0, 0⟩ := by
  rw [step, behind ⟨word.kind, word.text, 0, 0⟩ closes]

theorem settle_close (tree : UseTree) (outer : List OpenTree) (next : Option Token) :
    (close tree outer).settle next = close tree outer := by
  fun_induction close tree outer with
  | case1 => rfl
  | case2 tree word outer induction => exact induction
  | case3 => rfl

theorem isBehind_close (tree : UseTree) (outer : List OpenTree) :
    IsBehind tree outer (close tree outer) :=
  fun _ _ => settle_close tree outer _

theorem isBehind_afterWord (word : String) (outer : List OpenTree) :
    IsBehind (.name word) outer (.afterWord word outer) := by
  intro next closes
  have noPath : next.kind ≠ .pathSeparator := closes.1
  have noWord : next.kind ≠ .identifier := closes.2
  simp [settle, Token.isWord, noPath, noWord]

theorem run_inGroup (phrase : TreePhrase) (items : List UseTree) (outer : List OpenTree) :
    (inGroup items outer).run phrase.words =
      (start (.group items :: outer)).run phrase.words := by
  rcases phrase.exists_words_eq_cons with ⟨first, rest, equal, kind, _⟩
  have stepped : (inGroup items outer).step first = (start (.group items :: outer)).step first :=
    if_neg kind
  rw [equal, run, run, List.foldlM_cons, List.foldlM_cons, stepped]

mutual
/-- The words of a tree lead behind that tree. -/
theorem exists_run_words : ∀ (phrase : TreePhrase) (outer : List OpenTree),
    ∃ state, (start outer).run phrase.words = some state ∧ IsBehind phrase.tree outer state
  | .name word, outer => ⟨.afterWord word outer, rfl, isBehind_afterWord word outer⟩
  | .rename word target, outer => ⟨_, rfl, isBehind_close (.rename word target) outer⟩
  | .glob, outer => ⟨_, rfl, isBehind_close .glob outer⟩
  | .path word rest, outer => by
      rcases exists_run_words rest (.path word :: outer) with ⟨state, reached, behind⟩
      refine ⟨state, ?_, behind⟩
      rw [TreePhrase.words, run_append]
      exact reached
  | .emptyGroup, outer => ⟨_, rfl, isBehind_close (.group []) outer⟩
  | .group items, outer => by
      refine ⟨_, ?_, isBehind_close (.group items.trees) outer⟩
      rw [TreePhrase.words, List.append_assoc, run_append]
      exact run_listWords items [] outer

theorem run_listWords : ∀ (phrase : ListPhrase) (done : List UseTree) (outer : List OpenTree),
    (inGroup done outer).run (phrase.words ++ [⟨.closeBrace, "\x7d"⟩]) =
      some (close (.group (done ++ phrase.trees)) outer)
  | .last item comma, done, outer => by
      rcases exists_run_words item (.group done :: outer) with ⟨state, reached, behind⟩
      rw [ListPhrase.words, List.append_assoc, run_append, run_inGroup, reached, Option.bind_some]
      cases comma with
      | true =>
          have separated : state.step ⟨.comma, ","⟩ = some (.inGroup (done ++ [item.tree]) outer) :=
            step_of_isBehind behind ⟨nofun, nofun⟩
          rw [if_pos rfl, List.singleton_append, run, List.foldlM_cons, separated]
          rfl
      | false =>
          have closed : state.step ⟨.closeBrace, "\x7d"⟩ =
              some (close (.group (done ++ [item.tree])) outer) :=
            step_of_isBehind behind ⟨nofun, nofun⟩
          rw [if_neg Bool.false_ne_true, List.nil_append, run, List.foldlM_cons, closed]
          rfl
  | .more item rest, done, outer => by
      rcases exists_run_words item (.group done :: outer) with ⟨state, reached, behind⟩
      have separated : state.step ⟨.comma, ","⟩ = some (.inGroup (done ++ [item.tree]) outer) :=
        step_of_isBehind behind ⟨nofun, nofun⟩
      have others := run_listWords rest (done ++ [item.tree]) outer
      rw [List.append_assoc, List.singleton_append] at others
      rw [ListPhrase.words, List.append_assoc, List.append_assoc, run_append, run_inGroup,
        reached, Option.bind_some, List.singleton_append, run, List.foldlM_cons, separated]
      exact others
end

/-! ## What is read -/

def doneWords (done : List TreePhrase) : List Word :=
  done.flatMap fun phrase => phrase.words ++ [⟨.comma, ","⟩]

theorem doneWords_concat (done : List TreePhrase) (last : TreePhrase) :
    doneWords (done ++ [last]) = doneWords done ++ last.words ++ [⟨.comma, ","⟩] := by
  simp [doneWords]

theorem exists_listPhrase (done : List TreePhrase) (last : TreePhrase) (comma : Bool) :
    ∃ items : ListPhrase, items.trees = done.map TreePhrase.tree ++ [last.tree] ∧
      items.words = doneWords done ++ last.words ++ if comma then [⟨.comma, ","⟩] else [] := by
  induction done with
  | nil => exact ⟨.last last comma, rfl, rfl⟩
  | cons first rest induction =>
      rcases induction with ⟨items, trees, words⟩
      refine ⟨.more first items, ?_, ?_⟩
      · rw [ListPhrase.trees, trees]
        rfl
      · simp [ListPhrase.words, words, doneWords]

def Opened : List OpenTree → List Word → Prop
  | [], read => read = []
  | .path word :: outer, read =>
      ∃ before, Opened outer before ∧
        read = before ++ [⟨.identifier, word⟩, ⟨.pathSeparator, "::"⟩]
  | .group items :: outer, read =>
      ∃ before done, Opened outer before ∧ items = done.map TreePhrase.tree ∧
        read = before ++ ⟨.openBrace, "\x7b"⟩ :: doneWords done

def Reached : TreeState → List Word → Prop
  | .start outer, read => Opened outer read
  | .inGroup items outer, read => Opened (.group items :: outer) read
  | .afterWord word outer, read =>
      ∃ before, Opened outer before ∧ read = before ++ [⟨.identifier, word⟩]
  | .renaming word outer, read =>
      ∃ before, Opened outer before ∧
        read = before ++ [⟨.identifier, word⟩, ⟨.identifier, "as"⟩]
  | .afterItem items outer, read =>
      ∃ (before : List Word) (done : List TreePhrase) (last : TreePhrase), Opened outer before ∧
        items = done.map TreePhrase.tree ++ [last.tree] ∧
          read = before ++ ⟨.openBrace, "\x7b"⟩ :: (doneWords done ++ last.words)
  | .complete tree, read => ∃ phrase : TreePhrase, phrase.tree = tree ∧ phrase.words = read

theorem reached_close (phrase : TreePhrase) {outer : List OpenTree} {before : List Word}
    (opened : Opened outer before) :
    (close phrase.tree outer).Reached (before ++ phrase.words) := by
  induction outer generalizing phrase before with
  | nil =>
      rw [show before = [] from opened]
      exact ⟨phrase, rfl, rfl⟩
  | cons around outer induction =>
      cases around with
      | path word =>
          rcases opened with ⟨outside, opened, rfl⟩
          rw [List.append_assoc]
          exact induction (.path word phrase) opened
      | group items =>
          rcases opened with ⟨outside, done, opened, rfl, rfl⟩
          refine ⟨outside, done, phrase, opened, rfl, ?_⟩
          rw [List.append_assoc, List.cons_append]

theorem reached_settle {state : TreeState} {read : List Word} (reached : state.Reached read)
    (next : Option Token) : (state.settle next).Reached read := by
  cases state with
  | afterWord word outer =>
      unfold settle
      dsimp only
      split
      · exact reached
      · rcases reached with ⟨before, opened, rfl⟩
        exact reached_close (.name word) opened
  | _ => exact reached

theorem continues_of_settle {state : TreeState} {token : Token} {word : String}
    {outer : List OpenTree} (settled : state.settle (some token) = .afterWord word outer) :
    token.kind = .pathSeparator ∨ token.isWord "as" = true := by
  have notClosed : ∀ tree outer', close tree outer' ≠ .afterWord word outer := by
    intro tree outer' equal
    fun_induction close tree outer' with
    | case1 => cases equal
    | case2 tree word outer induction => exact induction equal
    | case3 => cases equal
  cases state with
  | afterWord word' outer' =>
      unfold settle at settled
      dsimp only at settled
      split at settled
      · next goesOn => simpa using goesOn
      · exact absurd settled (notClosed _ _)
  | _ => cases settled

theorem eq_of_isWord {token : Token} {word : String} (same : token.isWord word = true) :
    token.word = ⟨.identifier, word⟩ := by
  simp only [Token.isWord, Bool.and_eq_true, decide_eq_true_eq] at same
  rw [Token.word, same.1, same.2]

section Take

variable {token : Token} {next : TreeState} {outer : List OpenTree} {read : List Word}

theorem reached_begin (word : token.word.IsRead) (opened : Opened outer read)
    (begun : begin outer token = some next) : next.Reached (read ++ [token.word]) := by
  unfold begin at begun
  split at begun
  · next star =>
      cases begun
      rw [word.eq_mark star rfl]
      exact reached_close .glob opened
  · next brace =>
      cases begun
      rw [word.eq_mark brace rfl]
      exact ⟨read, [], opened, rfl, rfl⟩
  · next identifier =>
      cases begun
      exact ⟨read, opened, by rw [Token.word, identifier]⟩
  · cases begun

theorem reached_endGroup {items : List UseTree} (opened : Opened (.group items :: outer) read) :
    (close (.group items) outer).Reached (read ++ [⟨.closeBrace, "\x7d"⟩]) := by
  rcases opened with ⟨before, done, opened, rfl, rfl⟩
  rcases List.eq_nil_or_concat done with rfl | ⟨init, last, rfl⟩
  · rw [List.append_assoc]
    exact reached_close .emptyGroup opened
  · rcases exists_listPhrase init last true with ⟨items, trees, words⟩
    rw [List.concat_eq_append, List.map_append, List.map_singleton, ← trees, doneWords_concat]
    have closed : (close (.group items.trees) outer).Reached
        (before ++ (TreePhrase.group items).words) := reached_close (.group items) opened
    rw [TreePhrase.words, words, if_pos rfl] at closed
    simpa using closed

theorem reached_endItem {items : List UseTree} (reached : (afterItem items outer).Reached read) :
    (close (.group items) outer).Reached (read ++ [⟨.closeBrace, "\x7d"⟩]) := by
  rcases reached with ⟨before, done, last, opened, rfl, rfl⟩
  rcases exists_listPhrase done last false with ⟨items, trees, words⟩
  rw [← trees]
  have closed : (close (.group items.trees) outer).Reached
      (before ++ (TreePhrase.group items).words) := reached_close (.group items) opened
  rw [TreePhrase.words, words, if_neg Bool.false_ne_true] at closed
  simpa using closed

/-- What is reached behind a settled state says what was read. -/
theorem reached_take (word : token.word.IsRead) : ∀ {state : TreeState},
    (∀ name outer, state = .afterWord name outer →
      token.kind = .pathSeparator ∨ token.isWord "as" = true) →
    state.Reached read → state.take token = some next → next.Reached (read ++ [token.word])
  | .start outer, _, reached, taken => reached_begin word reached taken
  | .inGroup items outer, _, reached, taken => by
      rw [take] at taken
      split at taken
      · next brace =>
          cases taken
          rw [word.eq_mark brace rfl]
          exact reached_endGroup reached
      · exact reached_begin word reached taken
  | .afterWord name outer, goesOn, reached, taken => by
      rcases reached with ⟨before, opened, rfl⟩
      rw [take] at taken
      split at taken
      · next separator =>
          cases taken
          rw [word.eq_mark separator rfl, List.append_assoc]
          exact ⟨before, opened, rfl⟩
      · next noSeparator =>
          cases taken
          have renamed := (goesOn name outer rfl).resolve_left noSeparator
          rw [eq_of_isWord renamed, List.append_assoc]
          exact ⟨before, opened, rfl⟩
  | .renaming name outer, _, reached, taken => by
      rcases reached with ⟨before, opened, rfl⟩
      rw [take] at taken
      split at taken
      · next identifier =>
          cases taken
          rw [Token.word, identifier, List.append_assoc]
          exact reached_close (.rename name token.text) opened
      · cases taken
  | .afterItem items outer, _, reached, taken => by
      rw [take] at taken
      split at taken
      · next comma =>
          cases taken
          rcases reached with ⟨before, done, last, opened, rfl, rfl⟩
          refine ⟨before, done ++ [last], opened, by simp, ?_⟩
          rw [word.eq_mark comma rfl, doneWords_concat, List.append_assoc, List.cons_append]
      · next brace =>
          cases taken
          rw [word.eq_mark brace rfl]
          exact reached_endItem reached
      · cases taken

end Take

end TreeState

end ImportBlock
