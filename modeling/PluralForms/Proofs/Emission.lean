import PluralForms.Selection.Emission

/-! The program of a selection as it is written is the code of the selection. While it is written,
the jumps that leave a condition have no offsets yet; aimed past the end of what is written, they
make up the code of the condition. -/

namespace PluralForms

open Program (Builder Label)

variable {code code' rest : Program} {start : Nat}

/-! ### Jumps that get their targets -/

/-- The code from index `start` on with each jump aimed that has a target. -/
def Program.settle (target? : Nat → Option Nat) : Nat → Program → Program
  | _, [] => []
  | start, instruction :: rest =>
    (target? start).elim instruction (instruction.aim start ·) :: settle target? (start + 1) rest

/-- The labels' jumps have one target, and others have none. -/
def aims (labels : List Label) (target index : Nat) : Option Nat :=
  if ⟨index⟩ ∈ labels then some target else none

section Aims

variable {labels : List Label} {target index : Nat}

theorem aims_eq_some (h : ⟨index⟩ ∈ labels) : aims labels target index = some target := if_pos h

theorem aims_eq_none (h : ⟨index⟩ ∉ labels) : aims labels target index = none := if_neg h

theorem aims_append_of_ne {place : Nat} (h : index ≠ place) :
    aims (labels ++ [⟨place⟩]) target index = aims labels target index := by
  simp [aims, h]

theorem or_aims (labels more : List Label) (target index : Nat) :
    (aims labels target index).or (aims more target index) =
      aims (more ++ labels) target index := by
  by_cases hlabels : ⟨index⟩ ∈ labels <;> by_cases hmore : ⟨index⟩ ∈ more <;>
    simp [aims, hlabels, hmore]

end Aims

namespace Program

variable {f g : Nat → Option Nat}

theorem length_settle (f : Nat → Option Nat) (start : Nat) (code : Program) :
    (code.settle f start).length = code.length := by
  induction code generalizing start with
  | nil => rfl
  | cons instruction rest ih => rw [settle, List.length_cons, ih, List.length_cons]

theorem settle_append (f : Nat → Option Nat) (start : Nat) (code rest : Program) :
    settle f start (code ++ rest) = settle f start code ++ settle f (start + code.length) rest := by
  induction code generalizing start with
  | nil => rfl
  | cons instruction code ih =>
    rw [List.cons_append, settle, settle, ih, List.cons_append, List.length_cons,
      Nat.add_right_comm, Nat.add_assoc]

/-- Only the targets of the code's own indices matter. -/
theorem settle_congr
    (h : ∀ index, start ≤ index → index < start + code.length → f index = g index) :
    settle f start code = settle g start code := by
  induction code generalizing start with
  | nil => rfl
  | cons instruction rest ih =>
    rw [List.length_cons] at h
    rw [settle, settle, h start (by omega) (by omega),
      ih fun index hlow hhigh => h index (by omega) (by omega)]

theorem settle_none (start : Nat) (code : Program) : settle (fun _ => none) start code = code := by
  induction code generalizing start with
  | nil => rfl
  | cons instruction rest ih => rw [settle, ih, Option.elim]

theorem settle_of_none (h : ∀ index, start ≤ index → index < start + code.length → f index = none) :
    settle f start code = code := by
  rw [settle_congr h, settle_none]

/-- The target that a jump gets last is the one it keeps. -/
theorem settle_settle (f g : Nat → Option Nat) (start : Nat) (code : Program) :
    settle g start (settle f start code) =
      settle (fun index => (g index).or (f index)) start code := by
  induction code generalizing start with
  | nil => rfl
  | cons instruction rest ih =>
    simp only [settle, ih]
    congr 1
    cases g start with
    | none => rfl
    | some target => cases f start <;> cases instruction <;> rfl

/-- Aiming one jump changes nothing else. -/
theorem modify_eq_settle (index target start : Nat) (code : Program) :
    code.modify index (Instruction.aim (start + index) target) =
      settle (aims [⟨start + index⟩] target) start code := by
  induction code generalizing index start with
  | nil => cases index <;> rfl
  | cons instruction rest ih =>
    cases index with
    | zero =>
      have hrest : settle (aims [⟨start⟩] target) (start + 1) rest = rest :=
        settle_of_none fun index hlow _ => aims_eq_none (by simp; omega)
      rw [Nat.add_zero, settle, hrest, aims_eq_some (by simp)]
      rfl
    | succ index =>
      have hindex : start + (index + 1) = start + 1 + index := by omega
      rw [List.modify_succ_cons, settle, hindex, ih, aims_eq_none (by simp; omega)]
      rfl

theorem code_foldl_emit (builder : Builder) (code : Program) :
    (code.foldl Builder.emit builder).code = builder.code ++ code := by
  induction code generalizing builder with
  | nil => rw [List.foldl_nil, List.append_nil]
  | cons instruction rest ih =>
    rw [List.foldl_cons, ih, Builder.emit, List.append_assoc, List.singleton_append]

theorem code_aimAll (builder : Builder) (labels : List Label) :
    (builder.aimAll labels).code = settle (aims labels builder.next) 0 builder.code := by
  induction labels generalizing builder with
  | nil => exact (settle_none 0 builder.code).symm
  | cons label rest ih =>
    have hone : (builder.aimHere label).code =
        settle (aims [label] builder.next) 0 builder.code := by
      have hmodify := modify_eq_settle label.index builder.next 0 builder.code
      rwa [Nat.zero_add] at hmodify
    have hnext : (builder.aimHere label).next = builder.next := by
      rw [Builder.next, hone, length_settle]
      rfl
    have hall : builder.aimAll (label :: rest) = (builder.aimHere label).aimAll rest := rfl
    rw [hall, ih, hone, hnext, settle_settle]
    simp only [or_aims, List.cons_append, List.nil_append]

end Program

/-! ### Conditions -/

/-- The targets of jumps that await them, by the value of `S` with which they are taken. -/
def Exits.target? (exits : Exits) (target : Bool → Nat) (index : Nat) : Option Nat :=
  (aims (exits true) (target true) index).or (aims (exits false) (target false) index)

/-- The code of a condition is written behind other code, and the jumps that leave it await their
targets: aimed at places past its end, they make up the code of the condition. -/
structure Pending (condition : Condition) (before code : Program) (exits : Exits) : Prop where
  within : ∀ {outcome index}, ⟨index⟩ ∈ exits outcome →
    before.length ≤ index ∧ index < code.length
  apart : ∀ {index}, ⟨index⟩ ∈ exits true → ⟨index⟩ ∉ exits false
  settled : ∀ past : Bool → Nat,
    code.settle (exits.target? fun outcome => code.length + past outcome) 0 =
      before ++ condition.code (past true) (past false)

variable {condition left right : Condition} {before : Program} {exits exits' : Exits}

theorem Pending.length (h : Pending condition before code exits) (past : Bool → Nat) :
    code.length = before.length + (condition.code (past true) (past false)).length := by
  rw [← List.length_append, ← h.settled past, Program.length_settle]

/-- No jump has two targets, so that either outcome may come first. -/
theorem Pending.target?_eq (h : Pending condition before code exits) (on : Bool)
    (target : Bool → Nat) (index : Nat) :
    exits.target? target index =
      (aims (exits on) (target on) index).or (aims (exits !on) (target !on) index) := by
  cases on with
  | true => rfl
  | false =>
    rw [Exits.target?, Bool.not_false]
    by_cases htrue : ⟨index⟩ ∈ exits true
    · rw [aims_eq_none (h.apart htrue), Option.or_none, Option.none_or]
    · rw [aims_eq_none htrue, Option.none_or, Option.or_none]

/-- Behind a jump on one outcome, the exits with the other one arrive. Those with the first arrive
where the jump does, past more code. -/
theorem Pending.settle_jump (h : Pending condition before code exits) (on : Bool) (past : Nat)
    (rest : Program) :
    Program.settle (aims (exits on ++ [⟨code.length⟩]) (code.length + 1 + past)) 0
        (Program.settle (aims (exits !on) (code.length + 1)) 0 (code ++ [.jump on 0]) ++ rest) =
      before ++ condition.code (if true = on then 1 + past else 1)
        (if false = on then 1 + past else 1) ++ .jump on past :: rest := by
  rw [Program.settle_append, Program.settle_settle, Program.settle_append, List.append_assoc]
  congr 1
  · rw [← h.settled fun outcome => if outcome = on then 1 + past else 1]
    apply Program.settle_congr
    intro index _ hindex
    rw [h.target?_eq on, aims_append_of_ne (by omega), if_pos rfl,
      if_neg (Bool.not_not_eq.mpr rfl), Nat.add_assoc]
  · have hrest : Program.settle (aims (exits on ++ [⟨code.length⟩]) (code.length + 1 + past))
        (code.length + 1) rest = rest := by
      apply Program.settle_of_none
      intro index hindex _
      apply aims_eq_none
      intro hmem
      rcases List.mem_append.mp hmem with hmem | hmem
      · have hwithin := h.within hmem
        omega
      · obtain rfl := Label.mk.inj (List.mem_singleton.mp hmem)
        omega
    simp only [Program.length_settle, List.length_append, List.length_singleton, Nat.zero_add,
      hrest]
    rw [Program.settle, aims_eq_some (by simp)]
    simp only [Option.some_or, Option.elim, Instruction.aim, Instruction.withOffset, Program.settle,
      List.cons_append, List.nil_append]
    congr 2
    omega

theorem Exits.mem_joined {on outcome : Bool} {first second : Exits} {label jump : Label} :
    label ∈ Exits.joined on first jump second outcome ↔
      (outcome = on ∧ (label ∈ first on ∨ label = jump)) ∨ label ∈ second outcome := by
  rw [Exits.joined]
  split
  next h => simp [h, or_assoc]
  next h => simp [h]

/-- The jumps of the first condition, the one behind it and those of the second stand in this order.
-/
structure Exits.Ordered (on : Bool) (first : Exits) (low place high : Nat) (second : Exits) :
    Prop where
  first : ∀ {index}, ⟨index⟩ ∈ first on → low ≤ index ∧ index < place
  jump : low ≤ place ∧ place < high
  second : ∀ {outcome index}, ⟨index⟩ ∈ second outcome → place < index ∧ index < high

section Ordered

variable {on : Bool} {first second : Exits} {low place high : Nat}
  (h : Exits.Ordered on first low place high second)
include h

theorem Exits.Ordered.within {outcome : Bool} {index : Nat}
    (hmem : ⟨index⟩ ∈ Exits.joined on first ⟨place⟩ second outcome) :
    low ≤ index ∧ index < high := by
  have hjump := h.jump
  rcases Exits.mem_joined.mp hmem with ⟨-, hmem | hmem⟩ | hmem
  · have hfirst := h.first hmem
    omega
  · obtain rfl := Label.mk.inj hmem
    exact hjump
  · have hsecond := h.second hmem
    omega

theorem Exits.Ordered.apart
    (hapart : ∀ {index}, ⟨index⟩ ∈ second true → ⟨index⟩ ∉ second false) {index : Nat}
    (htrue : ⟨index⟩ ∈ Exits.joined on first ⟨place⟩ second true) :
    ⟨index⟩ ∉ Exits.joined on first ⟨place⟩ second false := by
  intro hfalse
  have hupto (hmem : ⟨index⟩ ∈ first on ∨ (⟨index⟩ : Label) = ⟨place⟩) : index ≤ place := by
    rcases hmem with hmem | hmem
    · exact Nat.le_of_lt (h.first hmem).2
    · exact Nat.le_of_eq (Label.mk.inj hmem)
  rcases Exits.mem_joined.mp htrue with ⟨rfl, htrue⟩ | htrue
  · rcases Exits.mem_joined.mp hfalse with ⟨hon, -⟩ | hfalse
    · exact Bool.noConfusion hon
    · exact Nat.not_le_of_lt (h.second hfalse).1 (hupto htrue)
  · rcases Exits.mem_joined.mp hfalse with ⟨rfl, hfalse⟩ | hfalse
    · exact Nat.not_le_of_lt (h.second htrue).1 (hupto hfalse)
    · exact hapart htrue hfalse

/-- The jumps of the second condition have their targets apart from the others. -/
theorem Exits.Ordered.target? (target : Bool → Nat) (index : Nat) :
    Exits.target? (.joined on first ⟨place⟩ second) target index =
      (aims (first on ++ [⟨place⟩]) (target on) index).or (second.target? target index) := by
  by_cases hindex : index ≤ place
  · have hnone (outcome) : ⟨index⟩ ∉ second outcome := fun hmem =>
      Nat.not_le_of_lt (h.second hmem).1 hindex
    cases on <;> simp [Exits.target?, aims, Exits.mem_joined, hnone]
  · have hnone : ⟨index⟩ ∉ first on := fun hmem => hindex (Nat.le_of_lt (h.first hmem).2)
    have hplace : index ≠ place := fun heq => hindex (Nat.le_of_eq heq)
    cases on <;> simp [Exits.target?, aims, Exits.mem_joined, hnone, hplace]

end Ordered

theorem Pending.joined (hleft : Pending left before code exits) (on : Bool)
    (hright : Pending right
      (Program.settle (aims (exits !on) (code.length + 1)) 0 (code ++ [.jump on 0])) code' exits') :
    Pending (if on then .or left right else .and left right) before code'
      (.joined on exits ⟨code.length⟩ exits') := by
  have hlength (past : Bool → Nat) : code'.length =
      code.length + 1 + (right.code (past true) (past false)).length := by
    rw [hright.length past, Program.length_settle, List.length_append, List.length_singleton]
  have hordered : Exits.Ordered on exits before.length code.length code'.length exits' := by
    refine ⟨hleft.within, ⟨?_, ?_⟩, fun hmem => ?_⟩
    · have hbefore := hleft.length fun _ => 0
      omega
    · have hafter := hlength fun _ => 0
      omega
    · have hwithin := hright.within hmem
      rwa [Program.length_settle, List.length_append, List.length_singleton] at hwithin
  refine ⟨hordered.within, hordered.apart hright.apart, fun past => ?_⟩
  have hplace : code'.length + past on = code.length + 1 +
      ((right.code (past true) (past false)).length + past on) := by
    rw [hlength past, Nat.add_assoc]
  rw [funext (hordered.target? _), ← Program.settle_settle, hright.settled past, hplace,
    hleft.settle_jump]
  cases on <;> simp [Condition.code]

theorem Program.code_aimAll_emitJump (builder : Builder) (on : Bool) (labels : List Label) :
    ((builder.emitJump on).1.aimAll labels).code =
      Program.settle (aims labels (builder.code.length + 1)) 0 (builder.code ++ [.jump on 0]) := by
  have hnext : (builder.emitJump on).1.next = builder.code.length + 1 := List.length_append
  rw [Program.code_aimAll, hnext]
  rfl

/-- A condition is written behind what was written before. -/
theorem Condition.pending_emit (condition : Condition) (builder : Builder) :
    Pending condition builder.code (condition.emit builder).1.code (condition.emit builder).2 := by
  induction condition generalizing builder with
  | compare chain comparison operand =>
    refine ⟨by simp [emit], by simp [emit], fun past => ?_⟩
    have hcode : ((compare chain comparison operand).emit builder).1.code =
        builder.code ++ (chain.code ++ [.test comparison operand]) := by
      show (chain.code.foldl Builder.emit builder).code ++ [.test comparison operand] = _
      rw [Program.code_foldl_emit, List.append_assoc]
    rw [hcode]
    exact Program.settle_of_none fun _ _ _ => rfl
  | and left right ihLeft ihRight =>
    have hright :=
      ihRight (((left.emit builder).1.emitJump false).1.aimAll ((left.emit builder).2 true))
    rw [Program.code_aimAll_emitJump] at hright
    exact (ihLeft builder).joined false hright
  | or left right ihLeft ihRight =>
    have hright :=
      ihRight (((left.emit builder).1.emitJump true).1.aimAll ((left.emit builder).2 false))
    rw [Program.code_aimAll_emitJump] at hright
    exact (ihLeft builder).joined true hright

/-- The exits of a condition that nothing follows arrive at its end. -/
theorem Pending.code_arrive {builder : Builder} (h : Pending condition before builder.code exits) :
    ((builder.aimAll (exits true)).aimAll (exits false)).code = before ++ condition.code 0 0 := by
  have hnext : (builder.aimAll (exits true)).next = builder.next := by
    rw [Builder.next, Program.code_aimAll, Program.length_settle]
    rfl
  have htargets (index : Nat) : (aims (exits false) builder.next index).or
      (aims (exits true) builder.next index) =
        exits.target? (fun _ => builder.code.length) index := by
    rw [Exits.target?, or_aims, or_aims]
    simp [aims, or_comm, Builder.next]
  rw [Program.code_aimAll, Program.code_aimAll, hnext, Program.settle_settle, funext htargets]
  exact h.settled fun _ => 0

/-! ### Selections -/

namespace Selection

variable {yes no : Builder → Builder} {yesCode noCode : Program}

theorem code_emitChoice (condition : Condition)
    (hyes : ∀ builder, (yes builder).code = builder.code ++ yesCode)
    (hno : ∀ builder, (no builder).code = builder.code ++ noCode) (builder : Builder) :
    (emitChoice condition yes no builder).code =
      builder.code ++ (condition.code 1 (1 + yesCode.length) ++
        .jump false yesCode.length :: (yesCode ++ noCode)) := by
  have hpending := condition.pending_emit builder
  rw [emitChoice]
  generalize condition.emit builder = written at hpending ⊢
  obtain ⟨written, exits⟩ := written
  have hcode := hyes ((written.emitJump false).1.aimAll (exits true))
  rw [Program.code_aimAll_emitJump] at hcode
  have hnext : (yes ((written.emitJump false).1.aimAll (exits true))).next =
      written.code.length + 1 + yesCode.length := by
    rw [Builder.next, hcode, List.length_append, Program.length_settle, List.length_append,
      List.length_singleton]
  have hsettled := hpending.settle_jump false yesCode.length yesCode
  rw [Bool.not_false, ← hcode, ← hnext] at hsettled
  rw [hno, Program.code_aimAll]
  exact (congrArg (· ++ noCode) hsettled).trans (by simp)

theorem code_emit (selection : Selection) (builder : Builder) :
    (selection.emit builder).code = builder.code ++ selection.code := by
  induction selection generalizing builder with
  | constant value => rfl
  | test condition =>
    have hret (value : Int64) (builder : Builder) :
        (builder.emit (.ret value)).code = builder.code ++ [.ret value] := rfl
    exact code_emitChoice condition (hret 1) (hret 0) builder
  | choose condition yes no ihYes ihNo => exact code_emitChoice condition ihYes ihNo builder

/-- The program as it is written is the code of the selection. -/
theorem emitted_eq_program (selection : Selection) : selection.emitted = selection.program := by
  cases selection with
  | test condition => exact (condition.pending_emit {}).code_arrive
  | constant | choose => exact code_emit _ {}

end Selection

end PluralForms
