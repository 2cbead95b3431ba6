import PluralForms.Engine

/-! The cache of an engine does not show. A formula does not depend on the memory of native code, so
a header always makes the same; each entry of the cache is what its header makes, and every call of
the engine leaves it so. -/

namespace PluralForms

namespace Cache

variable {α ε σ : Type} {cache : Cache α} {make : String → Except ε α} {key : String} {value : α}

/-- Each entry is what is made of its key. -/
def Holds (cache : Cache α) (make : String → Except ε α) : Prop :=
  ∀ entry ∈ cache.entries, make entry.1 = .ok entry.2

theorem Holds.of_find? (h : cache.Holds make) (hfind : cache.find? key = some value) :
    make key = .ok value := by
  obtain ⟨entry, hentry, rfl⟩ := Option.map_eq_some_iff.mp hfind
  have hkey : entry.1 = key := by simpa using List.find?_some hentry
  rw [← hkey]
  exact h entry (List.mem_of_find?_eq_some hentry)

theorem Holds.put (h : cache.Holds make) (hmake : make key = .ok value) :
    ∀ entry ∈ (key, value) :: cache.others key, make entry.1 = .ok entry.2 := by
  intro entry hmem
  rcases List.mem_cons.mp hmem with rfl | hmem
  · exact hmake
  · exact h entry (List.mem_filter.mp hmem).1

theorem Holds.insert (h : cache.Holds make) (hmake : make key = .ok value) :
    (cache.insert key value).Holds make :=
  fun entry hmem => h.put hmake entry (List.mem_of_mem_take hmem)

theorem Holds.clear (cache : Cache α) (make : String → Except ε α) : cache.clear.Holds make := by
  intro entry hmem
  simp [Cache.clear] at hmem

/-- What the cache answers is what is made of the key, whether it is found or built, and nothing
else gets into the cache. -/
theorem Holds.getOrInsert (h : cache.Holds make) (build : Unit → Except ε α × σ)
    (hbuild : (build ()).1 = make key) :
    (cache.getOrInsert key build).1 = make key ∧
      (cache.getOrInsert key build).2.2.Holds make := by
  simp only [Cache.getOrInsert, Cache.get]
  cases hfind : cache.find? key with
  | some value =>
    have hmake := h.of_find? hfind
    exact ⟨hmake.symm, h.put hmake⟩
  | none =>
    dsimp only
    cases hbuilt : build () with
    | mk answer left =>
      rw [hbuilt] at hbuild
      cases answer with
      | ok value => exact ⟨hbuild, h.insert hbuild.symm⟩
      | error error => exact ⟨hbuild, h⟩

end Cache

namespace Engine

variable {engine : Engine}

/-! ### The memory of native code -/

/-- The code is what the assembler yields, wherever it is installed. -/
theorem map_compileNative (arena : Native.Arena) (program : Program) :
    (compileNative arena program).map Prod.fst =
      (Native.assemble Native.X86.isa program).bind fun code =>
        if code.isEmpty then .error .emptyProgram else .ok code := by
  simp only [compileNative, Native.Arena.install]
  cases Native.assemble Native.X86.isa program with
  | error error => rfl
  | ok code =>
    dsimp only [bind, Except.bind]
    by_cases hempty : code.isEmpty = true
    · rw [if_pos hempty, if_pos hempty]
      rfl
    · rw [if_neg hempty, if_neg hempty]
      cases arena.regions.getLast?.filter (·.hasRoom code) <;> rfl

theorem outcome_ofProgram (config : Config) (arena arena' : Native.Arena) (program : Program) :
    (ofProgram config arena program).outcome = (ofProgram config arena' program).outcome := by
  simp only [ofProgram]
  split
  · rfl
  · split
    · have hnative : (compileNative arena (optimized config program).1).map Prod.fst =
          (compileNative arena' (optimized config program).1).map Prod.fst := by
        rw [map_compileNative, map_compileNative]
      cases hfirst : compileNative arena (optimized config program).1 <;>
        cases hsecond : compileNative arena' (optimized config program).1 <;>
        simp_all [Except.map]
    · rfl

theorem outcome_ofExpression (config : Config) (arena arena' : Native.Arena)
    (expression : List Char) :
    (ofExpression config arena expression).outcome =
      (ofExpression config arena' expression).outcome := by
  simp only [ofExpression]
  split
  · exact congrArg Except.ok (outcome_ofProgram config arena arena' _)
  · split
    · rfl
    · split <;> rfl

/-- What is made of a header does not depend on the native code that was made before. -/
theorem outcome_ofHeader (config : Config) (arena arena' : Native.Arena) (text : String) :
    (ofHeader config arena text).outcome = (ofHeader config arena' text).outcome := by
  delta ofHeader
  split
  · rfl
  · split
    · rfl
    · split
      · rfl
      · dsimp only
        rw [outcome_ofExpression config arena arena']

/-! ### Calls -/

/-- A call of an engine. -/
inductive Call where
  | make (text : String)
  | makeUncached (text : String)
  | compileExpression (expression : String)
  | clearCache

/-- The engine after a call. -/
def after (engine : Engine) : Call → Engine
  | .make text => (engine.make text).engine
  | .makeUncached text => (engine.makeUncached text).engine
  | .compileExpression expression => (engine.compileExpression expression).engine
  | .clearCache => engine.clearCache

/-- What the engine makes of headers, whatever is in its cache. -/
def made (config : Config) (text : String) : Except FormulaError Plural :=
  (ofHeader config {} text).outcome

theorem answer_makeUncached (engine : Engine) (text : String) :
    (engine.makeUncached text).answer = made engine.config text := by
  simp only [makeUncached, made]
  exact outcome_ofHeader engine.config engine.arena {} text

theorem holds_new (config : Config) (environment : Environment) :
    (new config environment).cache.Holds (made config) := by
  intro entry hmem
  cases hmem

theorem make_spec (h : engine.cache.Holds (made engine.config)) (text : String) :
    (engine.make text).answer = made engine.config text ∧
      (engine.make text).engine.config = engine.config ∧
      (engine.make text).engine.cache.Holds (made engine.config) := by
  have hbuild := outcome_ofHeader engine.config engine.arena {} text
  rw [← made] at hbuild
  simp only [make]
  generalize ofHeader engine.config engine.arena text = attempt at hbuild ⊢
  obtain ⟨hanswer, hcache⟩ :=
    h.getOrInsert (fun _ => (attempt.outcome, attempt.arena, attempt.events)) hbuild
  split
  · next heq =>
    rw [heq] at hanswer hcache
    exact ⟨hanswer, rfl, hcache⟩
  · next heq =>
    rw [heq] at hanswer hcache
    exact ⟨hanswer, rfl, hcache⟩

/-- A call leaves the configuration as it is, and the entries of the cache in order. -/
theorem after_spec (h : engine.cache.Holds (made engine.config)) (call : Call) :
    (engine.after call).config = engine.config ∧
      (engine.after call).cache.Holds (made engine.config) := by
  cases call with
  | make text =>
    rw [after]
    exact (make_spec h text).2
  | makeUncached text =>
    simp only [after, makeUncached]
    exact ⟨trivial, h⟩
  | compileExpression expression =>
    simp only [after, compileExpression]
    exact ⟨trivial, h⟩
  | clearCache =>
    simp only [after, clearCache]
    exact ⟨trivial, .clear engine.cache _⟩

theorem foldl_after_spec (h : engine.cache.Holds (made engine.config)) (calls : List Call) :
    (calls.foldl after engine).config = engine.config ∧
      (calls.foldl after engine).cache.Holds (made engine.config) := by
  induction calls generalizing engine with
  | nil => exact ⟨rfl, h⟩
  | cons call calls ih =>
    obtain ⟨hconfig, hcache⟩ := after_spec h call
    rw [← hconfig] at hcache ⊢
    exact ih hcache

theorem answer_make_foldl (config : Config) (environment : Environment) (calls : List Call)
    (text : String) :
    ((calls.foldl after (new config environment)).make text).answer = made config text := by
  obtain ⟨hconfig, hcache⟩ := foldl_after_spec (holds_new config environment) calls
  have hmade : made (calls.foldl after (new config environment)).config = made config :=
    congrArg made hconfig
  rw [(make_spec (hmade.symm ▸ hcache) text).1, hmade]

/-- After any calls an engine answers to a header what it makes without a look at the cache, and
what an engine without a past makes. The entries of its cache are such answers, so no header that
fails is among them. -/
theorem make_after_calls (config : Config) (environment : Environment) (calls : List Call)
    (text : String) :
    let engine := calls.foldl after (new config environment)
    (engine.make text).answer = (engine.makeUncached text).answer ∧
      (engine.make text).answer = ((new config environment).makeUncached text).answer ∧
      ∀ entry ∈ engine.cache.entries, (engine.makeUncached entry.1).answer = .ok entry.2 := by
  intro engine
  obtain ⟨hconfig, hcache⟩ := foldl_after_spec (holds_new config environment) calls
  have hmade : made engine.config = made config := congrArg made hconfig
  have hanswer : (engine.make text).answer = made config text :=
    answer_make_foldl config environment calls text
  refine ⟨?_, ?_, fun entry hmem => ?_⟩
  · rw [hanswer, answer_makeUncached, hmade]
  · rw [hanswer, answer_makeUncached, new]
  · rw [answer_makeUncached, hmade]
    exact hcache entry hmem

theorem make_after_calls_repeated :
    let engine := [Call.make "plural=0;", .make "nplurals=1; plural=0;"].foldl after
      (new {} fun _ => none)
    (engine.make "nplurals=1; plural=0;").answer =
        (engine.makeUncached "nplurals=1; plural=0;").answer ∧
      ∃ entry ∈ engine.cache.entries, (engine.makeUncached entry.1).answer = .ok entry.2 := by
  have hcalls := make_after_calls {} (fun _ => none)
    [.make "plural=0;", .make "nplurals=1; plural=0;"] "nplurals=1; plural=0;"
  generalize hengine : [Call.make "plural=0;", .make "nplurals=1; plural=0;"].foldl after
    (new {} fun _ => none) = engine at hcalls ⊢
  have hsize : 0 < engine.cache.entries.length := by
    rw [← hengine]
    decide +kernel
  obtain ⟨entry, hmem⟩ := List.exists_mem_of_length_pos hsize
  obtain ⟨hanswer, -, hentries⟩ := hcalls
  exact ⟨hanswer, entry, hmem, hentries entry hmem⟩

end Engine

end PluralForms
