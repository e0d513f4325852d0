import Hypertext.Proofs.Chain.Advance

/-! # What happens to a loop

A loop does its jobs one by one. Between two jobs everything else may happen: runs are begun, threads
change the world and call completion callbacks, and futures come to their outcomes.
What a schedule of such happenings leaves is the loop and the list of jobs that were done, each with
the world in which it was done. The queue grows at its end only, so jobs are done in the order in
which they were handed to the loop.
-/

namespace Hypertext

set_option autoImplicit false

variable {σ ρ : Type}

namespace Job

def run? : Job σ → Option Nat
  | .resume run _ | .relay (.run run) _ => some run
  | _ => none

def promise? : Job σ → Option Nat
  | .settle id _ | .task id _ | .taskEnded id _ | .relay (.task id) _ => some id
  | _ => none

end Job

def Shared.carriers (shared : Shared σ) (run : Nat) : List (Job σ) :=
  shared.queue.filter fun job => job.run? = some run

inductive Happening (σ : Type) where
  /-- The loop does the first of its jobs. -/
  | job
  /-- A run is begun in place. -/
  | start (run : Nat)
  | change (act : World σ → World σ)
  /-- A job is handed to the loop from outside. -/
  | hand (job : Job σ)

namespace Loop

def ofRoutines (world : World σ) (routines : List (Routine σ ρ)) : Loop σ ρ :=
  ⟨⟨world, [], []⟩, routines.map .fresh⟩

def awaitsFuture (loop : Loop σ ρ) (run : Nat) : Bool :=
  match loop.runs[run]? with
  | some (.active _ ⟨_, _, _, _, _, _, .pending⟩) => (loop.shared.carriers run).isEmpty
  | _ => false

/-- The jobs that may come from outside: those of callback plugins that were called, and the outcome
of a future for the run that waits for it. -/
def admits (loop : Loop σ ρ) : Job σ → Bool
  | .start _ => true
  | .resume _ none => false
  | .resume run (some _) | .relay (.run run) _ => loop.awaitsFuture run
  | .settle id _ | .task id _ | .taskEnded id _ | .relay (.task id) _ =>
    id < loop.shared.promises.length

def happen (conduct : Conduct σ) (loop : Loop σ ρ) : Happening σ → Loop σ ρ
  | .job => loop.step conduct
  | .start run => loop.perform conduct (.start run)
  | .change act => { loop with shared := loop.shared.withWorld (act loop.shared.world) }
  | .hand job => if loop.admits job then { loop with shared := loop.shared.post job } else loop

def play (conduct : Conduct σ) (loop : Loop σ ρ) (schedule : List (Happening σ)) : Loop σ ρ :=
  schedule.foldl (happen conduct) loop

def work (loop : Loop σ ρ) : Happening σ → List (World σ × Job σ)
  | .job => (loop.shared.queue.take 1).map fun job => (loop.shared.world, job)
  | _ => []

def worked (conduct : Conduct σ) (loop : Loop σ ρ) :
    List (Happening σ) → List (World σ × Job σ)
  | [] => []
  | happening :: schedule =>
    loop.work happening ++ worked conduct (loop.happen conduct happening) schedule

theorem perform_refused (conduct : Conduct σ) (loop : Loop σ ρ) (waiter : Waiter)
    {outcome : Outcome Slot} (hTaken : outcome.transferred? = none) :
    loop.perform conduct (.relay waiter outcome) = loop := by
  simp only [perform, hTaken]

theorem play_concat (conduct : Conduct σ) (loop : Loop σ ρ) (schedule : List (Happening σ))
    (happening : Happening σ) :
    loop.play conduct (schedule ++ [happening]) =
      (loop.play conduct schedule).happen conduct happening := by
  rw [play, List.foldl_append]
  rfl

end Loop

end Hypertext
