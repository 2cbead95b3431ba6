import PluralForms.Optimizer.Passes

/-! The optimizer, which repeats rounds of all passes until a round changes nothing or the limit of
rounds is reached. Programs with a jump that leaves them are not touched. -/

namespace PluralForms.Optimizer

/-- The number of changes of each kind, of removed instructions, and of rounds. -/
structure Stats where
  prefixes : Nat := 0
  loads : Nat := 0
  mods : Nat := 0
  collapsed : Nat := 0
  elided : Nat := 0
  leading : Nat := 0
  dead : Nat := 0
  idle : Nat := 0
  removed : Nat := 0
  rounds : Nat := 0
  deriving DecidableEq, Repr

def Stats.total (stats : Stats) : Nat :=
  stats.prefixes + stats.loads + stats.mods + stats.collapsed + stats.elided + stats.leading +
    stats.dead + stats.idle

/-- What the optimizer reports while it works. -/
inductive Report where
  | invalid (jump : InvalidJump)
  | round (number changes size : Nat)
  deriving DecidableEq, Repr

def defaultRounds : Nat := 8

def round (program : Program) (stats : Stats) : Program × Stats :=
  let (program, prefixes) := program.eliminatePrefixes
  let (program, loads) := Program.eliminateLoads program
  let (program, mods) := Program.fuseMods program
  let (program, collapsed) := Program.collapseJumps program
  let (program, elided) := Program.elideLoads program
  let (program, leading) := Program.removeLeadingLoad program
  let (program, gone) := Program.eliminateDead program
  (program,
    { stats with
      prefixes := stats.prefixes + prefixes
      loads := stats.loads + loads
      mods := stats.mods + mods
      collapsed := stats.collapsed + collapsed
      elided := stats.elided + elided
      leading := stats.leading + leading
      dead := stats.dead + gone.dead
      idle := stats.idle + gone.idle
      rounds := stats.rounds + 1 })

/-- The outcome of the optimizer: a program, the statistics and the reports in order. -/
structure Outcome where
  program : Program
  stats : Stats
  reports : List Report

/-- At most `left` rounds, up to the first that changes nothing. -/
def rounds : Nat → Program → Stats → Outcome
  | 0, program, stats => ⟨program, stats, []⟩
  | left + 1, program, stats =>
    let (after, sum) := round program stats
    let changes := sum.total - stats.total
    let report := Report.round sum.rounds changes after.length
    if changes = 0 then ⟨after, sum, [report]⟩
    else
      let outcome := rounds left after sum
      { outcome with reports := report :: outcome.reports }

/-- Optimizes a program in at most `limit` rounds. -/
def optimize (limit : Nat) (program : Program) : Outcome :=
  match program.invalidJump? with
  | some jump => ⟨program, {}, [.invalid jump]⟩
  | none =>
    let outcome := rounds limit program {}
    { outcome with
      stats := { outcome.stats with removed := program.length - outcome.program.length } }

end PluralForms.Optimizer
