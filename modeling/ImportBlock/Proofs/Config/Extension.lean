import ImportBlock.Proofs.Config.Name
import Mathlib

/-! The ways to add core names to a configuration: step by step, all at once, or in the options that it
is read from. They build the same configuration, or they all find a setting that is wrong. -/

namespace ImportBlock

theorem ok_bind {ε α β : Type} (value : α) (next : α → Except ε β) :
    (Except.ok value >>= next) = next value := rfl

/-! ## Tables with one value replaced -/

namespace Value

variable {fields : List (String × Value)} {key : String}

def withField (fields : List (String × Value)) (key : String) (value : Value) :
    List (String × Value) :=
  (key, value) :: fields.filter fun field => field.1 ≠ key

theorem field?_withField_same (value : Value) :
    field? (withField fields key value) key = some value := by
  simp [field?, withField]

theorem field?_withField_other (value : Value) {other : String} (different : other ≠ key) :
    field? (withField fields key value) other = field? fields other := by
  simp only [field?, withField, List.find?_cons, beq_false_of_ne different.symm, List.find?_filter]
  congr 2
  funext field
  by_cases found : field.1 = other <;> simp [found, different]

end Value

namespace Config

/-- Whether a configuration lists names of crates only, none of them in both sections. -/
structure IsSound (config : Config) : Prop where
  names : ∀ name ∈ config.coreNames ++ config.ownNames, IsCrateName name
  apart : ∀ name ∈ config.coreNames, name ∉ config.ownNames

/-- Whether two ways to build a configuration build the same one, or both find a setting that is
wrong. -/
inductive Concur : Except ConfigFailure Config → Except ConfigFailure Config → Prop
  | built (config : Config) : Concur (.ok config) (.ok config)
  | wrong (one other : ConfigError) : Concur (.error (.setting one)) (.error (.setting other))

theorem Concur.eq_ok {config : Config} {result : Except ConfigFailure Config}
    (alike : Concur (.ok config) result) : result = .ok config := by
  cases alike
  rfl

theorem checkNames_cases (key : String) (names : List String) :
    ((∀ name ∈ names, IsCrateName name) ∧
        checkNames key (names.map .string) = .ok (nameSet names)) ∨
      ((∃ name ∈ names, ¬IsCrateName name) ∧
        ∃ error, checkNames key (names.map .string) = .error (.setting error)) := by
  cases checked : checkNames key (names.map .string) with
  | ok found =>
      rcases checkNames_eq_ok_iff.mp checked with ⟨listed, equal, areNames, rfl⟩
      cases List.map_injective_iff.mpr (fun _ _ => Value.string.inj) equal
      exact .inl ⟨areNames, rfl⟩
  | error failure =>
      rcases exists_of_checkNames_eq_error checked with ⟨error, rfl⟩
      refine .inr ⟨?_, error, rfl⟩
      by_contra areNames
      push Not at areNames
      rw [checkNames_eq_ok_iff.mpr ⟨names, rfl, areNames, rfl⟩] at checked
      cases checked

theorem checkSections_cases (coreNames ownNames : List String) :
    ((∀ name ∈ coreNames, name ∉ ownNames) ∧ checkSections coreNames ownNames = .ok ()) ∨
      ((∃ name ∈ coreNames, name ∈ ownNames) ∧
        ∃ error, checkSections coreNames ownNames = .error (.setting error)) := by
  cases both : coreNames.filter ownNames.contains with
  | nil =>
      refine .inl ⟨?_, by rw [checkSections, both]⟩
      simpa [List.filter_eq_nil_iff] using both
  | cons name rest =>
      have member : name ∈ coreNames.filter ownNames.contains := both ▸ List.mem_cons_self
      exact .inr ⟨⟨name, by simpa using member⟩, _, by rw [checkSections, both]; rfl⟩

/-! ## Core names in place of others -/

variable {config : Config}

def replaceCoreNames (config : Config) (names : List String) : Except ConfigFailure Config := do
  let coreNames ← checkNames "core_names" (names.map .string)
  checkSections coreNames config.ownNames
  return { config with coreNames }

/-- Whether a name can be a core name of a configuration. -/
def Admits (config : Config) (name : String) : Prop := IsCrateName name ∧ name ∉ config.ownNames

/-- The names are checked together, but what decides is whether each is admitted. -/
theorem replaceCoreNames_cases (config : Config) (names : List String) :
    ((∀ name ∈ names, config.Admits name) ∧
        config.replaceCoreNames names = .ok { config with coreNames := nameSet names }) ∨
      ((∃ name ∈ names, ¬config.Admits name) ∧
        ∃ error, config.replaceCoreNames names = .error (.setting error)) := by
  rcases checkNames_cases "core_names" names with
    ⟨areNames, checked⟩ | ⟨⟨name, member, noName⟩, error, checked⟩
  · rcases checkSections_cases (nameSet names) config.ownNames with
      ⟨apart, equal⟩ | ⟨⟨name, isCore, isOwn⟩, error, equal⟩
    · refine .inl ⟨?_, ?_⟩
      · intro name member
        exact ⟨areNames name member, apart name (mem_nameSet.mpr member)⟩
      · rw [replaceCoreNames, checked, ok_bind, equal]
        rfl
    · refine .inr ⟨⟨name, mem_nameSet.mp isCore, fun admitted => admitted.2 isOwn⟩, error, ?_⟩
      rw [replaceCoreNames, checked, ok_bind, equal]
      rfl
  · refine .inr ⟨⟨name, member, fun admitted => noName admitted.1⟩, error, ?_⟩
    rw [replaceCoreNames, checked]
    rfl

theorem concur_replaceCoreNames {left right : List String}
    (same : ∀ name, name ∈ left ↔ name ∈ right) :
    Concur (config.replaceCoreNames left) (config.replaceCoreNames right) := by
  rcases replaceCoreNames_cases config left with
    ⟨admitted, equal⟩ | ⟨⟨name, member, refused⟩, error, equal⟩
  · rcases replaceCoreNames_cases config right with
      ⟨_, equal'⟩ | ⟨⟨name, member, refused⟩, _⟩
    · rw [equal, equal', nameSet_congr same]
      exact .built _
    · exact absurd (admitted name ((same name).mpr member)) refused
  · rcases replaceCoreNames_cases config right with ⟨admitted, _⟩ | ⟨_, error', equal'⟩
    · exact absurd (admitted name ((same name).mp member)) refused
    · rw [equal, equal']
      exact .wrong error error'

theorem IsSound.replaceCoreNames (sound : config.IsSound) {names : List String} {built : Config}
    (success : config.replaceCoreNames names = .ok built) : built.IsSound := by
  rcases replaceCoreNames_cases config names with ⟨admitted, equal⟩ | ⟨_, error, equal⟩
  · rw [equal] at success
    cases success
    refine ⟨?_, ?_⟩
    · intro name member
      rcases List.mem_append.mp member with isCore | isOwn
      · exact (admitted name (mem_nameSet.mp isCore)).1
      · exact sound.names name (List.mem_append_right _ isOwn)
    · intro name member
      exact (admitted name (mem_nameSet.mp member)).2
  · rw [equal] at success
    cases success

/-! ## More core names -/

theorem checkMembers_map_string (names : List String) :
    checkMembers (names.map .string) = .ok (names.map .string) := by
  unfold checkMembers
  split
  · next value found =>
      rcases List.mem_map.mp (List.mem_of_find?_eq_some found) with ⟨name, _, rfl⟩
      cases List.find?_some found
  · rfl

theorem withCoreNames_eq (config : Config) (names : List String) :
    config.withCoreNames (names.map .string) =
      config.replaceCoreNames (config.coreNames ++ names) := by
  rw [withCoreNames, checkMembers_map_string, replaceCoreNames, List.map_append]
  rfl

/-- The configuration with more core names, added in two steps. -/
def withCoreNamesInSteps (config : Config) (names more : List String) :
    Except ConfigFailure Config := do
  let built ← config.withCoreNames (names.map .string)
  built.withCoreNames (more.map .string)

theorem concur_withCoreNames_append (config : Config) (names more : List String) :
    Concur (config.withCoreNamesInSteps names more)
      (config.withCoreNames ((names ++ more).map .string)) := by
  simp only [withCoreNamesInSteps, withCoreNames_eq]
  rcases replaceCoreNames_cases config (config.coreNames ++ names) with
    ⟨_, equal⟩ | ⟨⟨name, member, refused⟩, error, equal⟩
  · rw [equal, ok_bind]
    -- the core names of the step in between are replaced, all else in it is as it was before
    change Concur (config.replaceCoreNames (nameSet (config.coreNames ++ names) ++ more)) _
    apply concur_replaceCoreNames
    intro name
    simp only [List.mem_append, mem_nameSet, or_assoc]
  · rcases replaceCoreNames_cases config (config.coreNames ++ (names ++ more)) with
      ⟨admitted, _⟩ | ⟨_, error', equal'⟩
    · refine absurd (admitted name ?_) refused
      rw [← List.append_assoc]
      exact List.mem_append_left _ member
    · rw [equal, equal']
      exact .wrong error error'

theorem IsSound.withCoreNames (sound : config.IsSound) {names : List String} {built : Config}
    (success : config.withCoreNames (names.map .string) = .ok built) : built.IsSound := by
  rw [withCoreNames_eq] at success
  exact sound.replaceCoreNames success

theorem IsSound.admits (sound : config.IsSound) : ∀ name ∈ config.coreNames, config.Admits name := by
  intro name member
  exact ⟨sound.names name (List.mem_append_left _ member), sound.apart name member⟩

theorem IsSound.exists_withCoreNames_iff (sound : config.IsSound) {names : List String} :
    (∃ built, config.withCoreNames (names.map .string) = .ok built) ↔
      ∀ name ∈ names, config.Admits name := by
  rw [withCoreNames_eq]
  rcases replaceCoreNames_cases config (config.coreNames ++ names) with
    ⟨admitted, equal⟩ | ⟨⟨name, member, refused⟩, error, equal⟩
  · exact iff_of_true ⟨_, equal⟩ fun name member => admitted name (List.mem_append_right _ member)
  · refine iff_of_false ?_ ?_
    · intro accepted
      rcases accepted with ⟨built, success⟩
      cases equal.symm.trans success
    · intro admitted
      exact refused ((List.mem_append.mp member).elim (sound.admits name) (admitted name))

/-! ## Options -/

/-- What a table of options says that a configuration is read from. -/
structure Reads (options : List (String × Value)) (core added own : Option (List Value))
    (config : Config) : Prop where
  known : (options.map (·.1)).filter (fun name => !optionNames.contains name) = []
  listsCore : listed? options "core_names" = .ok core
  listsAdded : listed? options "extend_core_names" = .ok added
  listsOwn : listed? options "local_names" = .ok own
  granularity : (Value.field? options "granularity").elim (.ok .module) checkGranularity =
    .ok config.granularity
  coreNames : checkNames "core_names" (core.getD (defaultCoreNames.map .string) ++ added.getD []) =
    .ok config.coreNames
  ownNames : checkNames "local_names" (own.getD []) = .ok config.ownNames
  apart : checkSections config.coreNames config.ownNames = .ok ()
  absorb : (Value.field? options "absorb_unaliased").elim (.ok true)
    (checkBoolean "absorb_unaliased") = .ok config.absorbUnaliased

variable {options : List (String × Value)}

theorem reads_of_ofOptions (accepted : ofOptions options = .ok config) :
    ∃ core added own, Reads options core added own config := by
  simp only [ofOptions] at accepted
  split at accepted
  · cases accepted
  · next known =>
      rcases exists_of_bind_eq_ok accepted with ⟨core, listsCore, accepted⟩
      rcases exists_of_bind_eq_ok accepted with ⟨added, listsAdded, accepted⟩
      rcases exists_of_bind_eq_ok accepted with ⟨own, listsOwn, accepted⟩
      rcases exists_of_bind_eq_ok accepted with ⟨granularity, isGranularity, accepted⟩
      rcases exists_of_bind_eq_ok accepted with ⟨coreNames, areCore, accepted⟩
      rcases exists_of_bind_eq_ok accepted with ⟨ownNames, areOwn, accepted⟩
      rcases exists_of_bind_eq_ok accepted with ⟨_, apart, accepted⟩
      rcases exists_of_bind_eq_ok accepted with ⟨absorb, isBoolean, equal⟩
      cases equal
      exact ⟨core, added, own, not_not.mp known, listsCore, listsAdded, listsOwn, isGranularity,
        areCore, areOwn, apart, isBoolean⟩

def extension (options : List (String × Value)) : List Value :=
  match Value.field? options "extend_core_names" with
  | some (.list values) => values
  | _ => []

def extended (options : List (String × Value)) (names : List String) : List (String × Value) :=
  Value.withField options "extend_core_names" (.list (extension options ++ names.map .string))

theorem extension_eq_of_listed? {added : Option (List Value)}
    (listsAdded : listed? options "extend_core_names" = .ok added) :
    extension options = added.getD [] := by
  unfold listed? at listsAdded
  unfold extension
  split at listsAdded
  · next absent =>
      cases listsAdded
      rw [absent]
      rfl
  · next items given =>
      rw [given]
      unfold checkMembers at listsAdded
      split at listsAdded
      · cases listsAdded
      · cases listsAdded
        rfl
  · cases listsAdded

theorem field?_extended (names : List String) {key : String} (other : key ≠ "extend_core_names") :
    Value.field? (extended options names) key = Value.field? options key :=
  Value.field?_withField_other _ other

theorem listed?_extended (names : List String) {key : String} (other : key ≠ "extend_core_names") :
    listed? (extended options names) key = listed? options key := by
  rw [listed?, listed?, field?_extended names other]

theorem known_extended
    (known : (options.map (·.1)).filter (fun name => !optionNames.contains name) = [])
    (names : List String) :
    ((extended options names).map (·.1)).filter (fun name => !optionNames.contains name) = [] := by
  rw [List.filter_eq_nil_iff, List.forall_mem_map] at known ⊢
  intro option member
  rcases List.mem_cons.mp member with rfl | kept
  · simp [optionNames]
  · exact known option (List.mem_filter.mp kept).1

theorem exists_ofOptions_extended (accepted : ofOptions options = .ok config) :
    ∃ listed : List String, config.coreNames = nameSet listed ∧
      ∀ names, ofOptions (extended options names) = config.replaceCoreNames (listed ++ names) := by
  rcases reads_of_ofOptions accepted with ⟨core, added, own, reads⟩
  rcases checkNames_eq_ok_iff.mp reads.coreNames with ⟨listed, values, _, equal⟩
  refine ⟨listed, equal, ?_⟩
  intro names
  rcases List.map_eq_append_iff.mp values.symm with ⟨front, back, rfl, isCore, isAdded⟩
  have listsAdded : listed? (extended options names) "extend_core_names" =
      .ok (some ((back ++ names).map .string)) := by
    rw [listed?, extended, Value.field?_withField_same, extension_eq_of_listed? reads.listsAdded,
      ← isAdded, ← List.map_append]
    change (checkMembers ((back ++ names).map .string)).map some = _
    rw [checkMembers_map_string]
    rfl
  have values' : core.getD (defaultCoreNames.map .string) ++ (back ++ names).map .string =
      (front ++ back ++ names).map .string := by
    rw [← isCore, ← List.map_append, List.append_assoc]
  simp only [ofOptions, known_extended reads.known, listsAdded, ok_bind,
    listed?_extended names (by decide : "core_names" ≠ "extend_core_names"), reads.listsCore,
    listed?_extended names (by decide : "local_names" ≠ "extend_core_names"), reads.listsOwn,
    field?_extended names (by decide : "granularity" ≠ "extend_core_names"), reads.granularity,
    field?_extended names (by decide : "absorb_unaliased" ≠ "extend_core_names"), reads.absorb,
    reads.ownNames, Option.getD_some, values', ne_eq, not_true, if_false]
  rfl

theorem isSound_of_ofOptions (accepted : ofOptions options = .ok config) : config.IsSound := by
  rcases reads_of_ofOptions accepted with ⟨core, added, own, reads⟩
  rcases checkNames_eq_ok_iff.mp reads.coreNames with ⟨listed, _, areNames, equal⟩
  rcases checkNames_eq_ok_iff.mp reads.ownNames with ⟨listed', _, areNames', equal'⟩
  refine ⟨?_, ?_⟩
  · intro name member
    rw [equal, equal', List.mem_append, mem_nameSet, mem_nameSet] at member
    exact member.elim (areNames name) (areNames' name)
  · rcases checkSections_cases config.coreNames config.ownNames with ⟨apart, _⟩ | ⟨_, _, failed⟩
    · exact apart
    · cases reads.apart.symm.trans failed

theorem concur_withCoreNames_extended (accepted : ofOptions options = .ok config)
    (names : List String) :
    Concur (config.withCoreNames (names.map .string)) (ofOptions (extended options names)) := by
  rcases exists_ofOptions_extended accepted with ⟨listed, equal, grown⟩
  rw [withCoreNames_eq, grown, equal]
  apply concur_replaceCoreNames
  intro name
  simp only [List.mem_append, mem_nameSet]

/-- Core names can be added exactly if each of them is the name of a crate and no name of the other
section. It makes no difference whether they are added to a configuration or to the options it is
read from, and whether in one step or in two. Each way ends with a configuration that is sound, or
with a setting that is wrong. -/
theorem concur_of_ofOptions (accepted : ofOptions options = .ok config) (names more : List String) :
    ((∃ built, config.withCoreNames (names.map .string) = .ok built) ↔
      ∀ name ∈ names, IsCrateName name ∧ name ∉ config.ownNames) ∧
    Concur (config.withCoreNames (names.map .string)) (ofOptions (extended options names)) ∧
    Concur (config.withCoreNamesInSteps names more)
      (config.withCoreNames ((names ++ more).map .string)) ∧
    ∀ result ∈ [ofOptions options, config.withCoreNames (names.map .string),
        ofOptions (extended options names), config.withCoreNamesInSteps names more,
        config.withCoreNames ((names ++ more).map .string)],
      ∀ built, result = .ok built → built.IsSound := by
  have sound := isSound_of_ofOptions accepted
  refine ⟨sound.exists_withCoreNames_iff, concur_withCoreNames_extended accepted names,
    concur_withCoreNames_append config names more, ?_⟩
  intro result member built success
  simp only [List.mem_cons, List.not_mem_nil, or_false] at member
  rcases member with rfl | rfl | rfl | rfl | rfl
  · exact isSound_of_ofOptions success
  · exact sound.withCoreNames success
  · exact isSound_of_ofOptions success
  · rcases exists_of_bind_eq_ok success with ⟨between, first, second⟩
    exact (sound.withCoreNames first).withCoreNames second
  · exact sound.withCoreNames success

theorem concur_of_ofOptions_both_lists :
    ofOptions (extended [("core_names", .list [.string "b"]), ("local_names", .list [.string "d"]),
        ("extend_core_names", .list [.string "a"])] ["c"]) =
      .ok ⟨["a", "b", "c"], ["d"], .module, true⟩ ∧
    IsSound ⟨["a", "b", "c"], ["d"], .module, true⟩ := by
  have accepted : ofOptions [("core_names", .list [.string "b"]),
      ("local_names", .list [.string "d"]), ("extend_core_names", .list [.string "a"])] =
      .ok ⟨["a", "b"], ["d"], .module, true⟩ := by cbv
  have added : withCoreNames ⟨["a", "b"], ["d"], .module, true⟩ (["c"].map .string) =
      .ok ⟨["a", "b", "c"], ["d"], .module, true⟩ := by cbv
  rcases concur_of_ofOptions accepted ["c"] ["d"] with ⟨_, alike, _, sound⟩
  rw [added] at alike
  exact ⟨alike.eq_ok, sound _ (List.mem_cons_of_mem _ List.mem_cons_self) _ added⟩

end Config

end ImportBlock
