import Mathlib.Data.List.Forall2
import PluralForms.Proofs.Caching
import PluralForms.Proofs.Engine
import PluralForms.Session

/-! The formula of a session, over any lines. A line replaces it as a whole if it loads a header or
an expression, and every other line, a failing one among them, leaves it as it is. So it is the
formula that was loaded last, and the lines of an evaluation tell the values of that one. -/

namespace PluralForms.Session

/-! ### Loading -/

/-- What a request loads, if the engine makes a formula of it. -/
def loads? (session : Session) : Request → Option Current
  | .header text =>
    let source := String.ofList text
    (session.engine.make source).answer.toOption.map fun plural =>
      ⟨source, plural.formula, some plural.nplurals⟩
  | .expression text =>
    let source := String.ofList text
    (session.engine.compileExpression source).answer.toOption.map fun formula =>
      ⟨source, formula, none⟩
  | _ => none

/-- The request is to load a header or an expression. -/
def Request.isLoad : Request → Bool
  | .header _ | .expression _ => true
  | _ => false

/-- The request is to evaluate the counts. -/
inductive Request.Evaluates : Request → List Int64 → Prop
  | counts {text : List Char} {counts : List Int64} : parseCounts text = .ok counts →
      Evaluates (.counts text) counts
  | range {text : List Char} {range : CountRange} : parseRange text = .ok range →
      Evaluates (.range text) range.counts

variable {session : Session} {request : Request} {counts : List Int64}

theorem loads?_of_isLoad (h : request.isLoad = false) : session.loads? request = none := by
  cases request <;> first | rfl | simp [Request.isLoad] at h

/-- A request that loads a formula has an output and puts it in the place of the formula before.
Every other request leaves that one. -/
theorem answer_cases (session : Session) (request : Request) :
    (∃ current text, session.loads? request = some current ∧
        (session.answer request).outcome = .ok (.output text) ∧
        (session.answer request).session.current = some current) ∨
      session.loads? request = none ∧
        (session.answer request).session.current = session.current := by
  cases request with
  | header text =>
    simp only [answer, loadHeader, loads?]
    cases (session.engine.make (String.ofList text)).answer with
    | ok plural => exact .inl ⟨_, _, rfl, rfl, rfl⟩
    | error error => exact .inr ⟨rfl, rfl⟩
  | expression text =>
    simp only [answer, loadExpression, loads?]
    cases (session.engine.compileExpression (String.ofList text)).answer with
    | ok formula => exact .inl ⟨_, _, rfl, rfl, rfl⟩
    | error error => exact .inr ⟨rfl, rfl⟩
  | _ => exact .inr ⟨rfl, rfl⟩

theorem current_answer (session : Session) (request : Request) :
    (session.answer request).session.current = (session.loads? request).or session.current := by
  rcases session.answer_cases request with ⟨current, text, hloads, -, hcurrent⟩ | ⟨hnone, hcurrent⟩
  · rw [hcurrent, hloads, Option.some_or]
  · rw [hcurrent, hnone, Option.none_or]

/-- A request that has no output loads nothing. -/
theorem loads?_of_no_output (h : ∀ text, (session.answer request).outcome ≠ .ok (.output text)) :
    session.loads? request = none := by
  rcases session.answer_cases request with ⟨_, text, -, houtcome, -⟩ | ⟨hnone, -⟩
  · exact absurd houtcome (h text)
  · exact hnone

theorem answer_of_evaluates (session : Session) (h : request.Evaluates counts) :
    (session.answer request).outcome =
      match session.current with
      | some current => .ok (.output (current.table counts))
      | none => .error .noFormula := by
  cases h with
  | counts hcounts =>
    simp only [answer, hcounts, loaded]
    cases session.current <;> rfl
  | range hrange =>
    simp only [answer, hrange, loaded]
    cases session.current <;> rfl

/-! ### Evaluation -/

namespace Current

/-- The header has a form of this number. Without a header each number may be one. -/
def Has (current : Current) (index : Int64) : Prop :=
  ∀ nplurals, current.nplurals = some nplurals → 0 ≤ index.toInt ∧ index.toInt < nplurals

/-- The line tells the value of the formula for the count `n`, and has a mark behind it if the
header has no such form. -/
structure Shows (current : Current) (n : Int64) (line : String) : Prop where
  form : ∀ index, current.formula.eval n = some index → current.Has index →
    line = s!"{Text.decimal n.toInt} -> {Text.decimal index.toInt}"
  mark : ∀ index, current.formula.eval n = some index → ¬current.Has index →
    line = s!"{Text.decimal n.toInt} -> {Text.decimal index.toInt}  (out of range)"

variable {current : Current}

theorem all_iff_has {index : Int64} :
    (current.nplurals.all fun nplurals : Nat => 0 ≤ index && index.toInt < nplurals) = true ↔
      current.Has index := by
  simp only [Has, Option.all_eq_true, Bool.and_eq_true, decide_eq_true_eq, Int64.le_iff_toInt_le,
    Int64.toInt_zero]

theorem shows_evalLine (current : Current) (n : Int64) : current.Shows n (current.evalLine n) := by
  constructor
  · intro index hindex hhas
    simp only [evalLine, hindex, if_pos (all_iff_has.mpr hhas)]
    exact String.append_empty
  · intro index hindex hhas
    simp only [evalLine, hindex, if_neg (mt all_iff_has.mp hhas)]
    rfl

/-- A table has a line for each count, in the order of the counts. -/
theorem exists_shows_table (current : Current) (counts : List Int64) :
    ∃ shown, current.table counts = "\n".intercalate shown ∧
      List.Forall₂ current.Shows counts shown :=
  ⟨counts.map current.evalLine, rfl,
    List.forall₂_map_right_iff.mpr (List.forall₂_same.mpr fun n _ => current.shows_evalLine n)⟩

end Current

/-! ### The engine, and values for all counts -/

/-- A request calls the engine at most once. -/
theorem exists_calls_answer (session : Session) (request : Request) :
    ∃ calls : List Engine.Call,
      (session.answer request).session.engine = calls.foldl Engine.after session.engine := by
  cases request with
  | header text =>
    refine ⟨[.make (String.ofList text)], ?_⟩
    simp only [answer, loadHeader]
    split <;> rfl
  | expression text =>
    refine ⟨[.compileExpression (String.ofList text)], ?_⟩
    simp only [answer, loadExpression]
    split <;> rfl
  | _ => exact ⟨[], rfl⟩

/-- The cache holds what is made of its headers, and the formula that is loaded has a value for each
count. -/
structure Sound (session : Session) : Prop where
  cache : session.engine.cache.Holds (Engine.made session.engine.config)
  current : ∀ current, session.current = some current → current.formula.IsTotal

theorem sound_new (config : Config) (environment : Environment) :
    (Session.mk (.new config environment) none).Sound where
  cache := Engine.holds_new config environment
  current := by simp

theorem ok_of_toOption {ε α : Type} {answer : Except ε α} {value : α}
    (h : answer.toOption = some value) : answer = .ok value := by
  cases answer with
  | ok value' => exact congrArg Except.ok (Option.some.inj h)
  | error error => cases h

/-- What a sound session loads has a value for each count. -/
theorem Sound.isTotal_of_loads? {current : Current} (h : session.Sound)
    (hloads : session.loads? request = some current) : current.formula.IsTotal := by
  cases request with
  | header text =>
    obtain ⟨plural, hplural, rfl⟩ := Option.map_eq_some_iff.mp hloads
    have hanswer := ok_of_toOption hplural
    rw [(Engine.make_spec h.cache _).1] at hanswer
    exact Engine.isTotal_ofHeader hanswer
  | expression text =>
    obtain ⟨formula, hformula, rfl⟩ := Option.map_eq_some_iff.mp hloads
    exact Engine.isTotal_ofExpression (ok_of_toOption hformula)
  | _ => cases hloads

theorem Sound.answer (h : session.Sound) (request : Request) :
    (session.answer request).session.Sound where
  cache := by
    obtain ⟨calls, hcalls⟩ := session.exists_calls_answer request
    obtain ⟨hconfig, hcache⟩ := Engine.foldl_after_spec h.cache calls
    rw [hcalls, hconfig]
    exact hcache
  current := by
    intro current hcurrent
    rw [current_answer, Option.or_eq_some_iff] at hcurrent
    rcases hcurrent with hloads | ⟨-, hbefore⟩
    · exact h.isTotal_of_loads? hloads
    · exact h.current current hbefore

/-! ### Lines -/

/-- The session after the lines. -/
def after (session : Session) (lines : List String) : Session :=
  lines.foldl (fun session line => (session.handle line).session) session

/-- What is loaded along the lines, in their order. -/
def allLoaded (session : Session) : List String → List Current
  | [] => []
  | line :: lines =>
    (session.loads? (.ofLine line.toList)).toList ++ (session.handle line).session.allLoaded lines

/-- After any lines the formula is the one that was loaded last. -/
theorem current_after (session : Session) (lines : List String) :
    (session.after lines).current = (session.allLoaded lines).getLast?.or session.current := by
  induction lines generalizing session with
  | nil => rfl
  | cons line lines ih =>
    rw [after, List.foldl_cons, ← after, ih, allLoaded, handle, current_answer,
      List.getLast?_append, Option.or_assoc]
    cases session.loads? (.ofLine line.toList) <;> rfl

theorem exists_calls_after (session : Session) (lines : List String) :
    ∃ calls : List Engine.Call,
      (session.after lines).engine = calls.foldl Engine.after session.engine := by
  induction lines generalizing session with
  | nil => exact ⟨[], rfl⟩
  | cons line lines ih =>
    obtain ⟨first, hfirst⟩ := exists_calls_answer session (.ofLine line.toList)
    obtain ⟨others, hothers⟩ := ih (session.handle line).session
    refine ⟨first ++ others, ?_⟩
    rw [after, List.foldl_cons, ← after, hothers, handle, hfirst, List.foldl_append]

theorem Sound.after (h : session.Sound) (lines : List String) : (session.after lines).Sound := by
  induction lines generalizing session with
  | nil => exact h
  | cons line lines ih => exact ih (h.answer (.ofLine line.toList))

/-- A line that fails, ends the session or is not to load leaves the formula with its text and its
number of plural forms as it is, and what another line loads takes its place. So after any lines it
is what was loaded last. It has a value for each count, and a line that asks for the values of
counts prints one line for each, with the value of that formula. -/
theorem current_handle (session : Session) (lines : List String) (line : String) :
    let before := session.after lines
    let request := Request.ofLine line.toList
    let reply := before.handle line
    let last := (session.allLoaded lines).getLast?.or session.current
    ((∃ error, reply.outcome = .error error) ∨ reply.outcome = .ok .quit ∨ request.isLoad = false →
        reply.session.current = before.current) ∧
      reply.session.current = (before.loads? request).or before.current ∧
      before.current = last ∧
      (session.Sound → ∀ current, last = some current → current.formula.IsTotal) ∧
      ∀ counts, request.Evaluates counts →
        match last with
        | some current => ∃ shown, reply.outcome = .ok (.output ("\n".intercalate shown)) ∧
            List.Forall₂ current.Shows counts shown
        | none => reply.outcome = .error .noFormula := by
  intro before request reply last
  have hreply : reply = before.answer request := rfl
  have hcurrent : reply.session.current = (before.loads? request).or before.current := by
    rw [hreply, current_answer]
  have hlast : before.current = last := current_after session lines
  refine ⟨fun h => ?_, hcurrent, hlast, fun hsound => ?_, fun counts hcounts => ?_⟩
  · suffices hnone : before.loads? request = none by rw [hcurrent, hnone, Option.none_or]
    rcases h with ⟨error, herror⟩ | hquit | hload
    · exact loads?_of_no_output fun text htext => by cases herror.symm.trans htext
    · exact loads?_of_no_output fun text htext => by cases hquit.symm.trans htext
    · exact loads?_of_isLoad hload
  · rw [← hlast]
    exact (hsound.after lines).current
  · have houtcome := before.answer_of_evaluates hcounts
    rw [← hreply, hlast] at houtcome
    cases hcase : last with
    | none =>
      rw [hcase] at houtcome
      exact houtcome
    | some current =>
      rw [hcase] at houtcome
      obtain ⟨shown, htable, hshown⟩ := current.exists_shows_table counts
      exact ⟨shown, htable ▸ houtcome, hshown⟩

/-- The expression that fails leaves the header before it, which has no form 2. -/
theorem current_handle_failing :
    let session : Session := ⟨.new (Config.withoutKnown {}) fun _ => none, none⟩
    let before := session.after ["nplurals=2; plural=n % 3;"]
    let reply := before.handle "n >"
    let table := "1 -> 1\n2 -> 2  (out of range)"
    (∃ error, reply.outcome = .error error) ∧ reply.session.current = before.current ∧
      session.Sound ∧ Request.Evaluates (.ofLine "1, 2".toList) [1, 2] ∧
      (reply.session.handle "1, 2").outcome = .ok (.output table) ∧
      ∃ current shown, before.current = some current ∧ current.formula.IsTotal ∧
        table = "\n".intercalate shown ∧ List.Forall₂ current.Shows [1, 2] shown := by
  intro session before reply table
  have hsound : session.Sound := sound_new (Config.withoutKnown {}) fun _ => none
  have herror : ∃ error, reply.outcome = .error error := by
    have hfails : reply.outcome.isOk = false := by decide +kernel
    cases houtcome : reply.outcome with
    | ok outcome => rw [houtcome] at hfails; cases hfails
    | error error => exact ⟨error, rfl⟩
  have hline : Request.ofLine "1, 2".toList = .counts "1, 2".toList := by decide +kernel
  have hcounts : Request.Evaluates (.ofLine "1, 2".toList) [1, 2] :=
    hline ▸ .counts (by decide +kernel)
  have houtcome : (reply.session.handle "1, 2").outcome = .ok (.output table) := by decide +kernel
  have hstays : reply.session.current = before.current :=
    (session.current_handle ["nplurals=2; plural=n % 3;"] "n >").1 (.inl herror)
  obtain ⟨-, -, hlast, htotal, hevaluates⟩ :=
    session.current_handle ["nplurals=2; plural=n % 3;", "n >"] "1, 2"
  have hafter : session.after ["nplurals=2; plural=n % 3;", "n >"] = reply.session := rfl
  -- The formula is made a variable, or else it would be computed by each step from here on.
  rw [← hlast, hafter, hstays] at htotal hevaluates
  refine ⟨herror, hstays, hsound, hcounts, houtcome, ?_⟩
  generalize before.current = last at htotal hevaluates ⊢
  cases last with
  | none => cases houtcome.symm.trans (hevaluates [1, 2] hcounts)
  | some current =>
    obtain ⟨shown, hshown, hlines⟩ := hevaluates [1, 2] hcounts
    have htable := Outcome.output.inj (Except.ok.inj (houtcome.symm.trans hshown))
    exact ⟨current, shown, rfl, htotal hsound current rfl, htable, hlines⟩

end PluralForms.Session
