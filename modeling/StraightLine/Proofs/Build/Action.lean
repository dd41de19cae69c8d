import StraightLine.Build.Run
import StraightLine.Storage.Memory
import StraightLine.Storage.Platform

/-!
# Actions — what a host answers and what it leaves

A host whose state is a value runs every action from a state to an answer and
another state. `Quiet` actions are those that only look: what they answer is
up to the storage, and the storage stays as it is. They are closed under
sequence, so that of a whole phase of a build only the readings and the
records have to be quiet, which is what `Host.Over` asks of a host.
-/

namespace StraightLine

variable {σ S α β : Type}

namespace Action

variable {storage : σ → S} {x : ExceptT Fault (StateM σ) α} {answer : S → Except Fault α}

/-- What an action answers in a state, and the state it leaves. -/
def run (x : ExceptT Fault (StateM σ) α) (s : σ) : Except Fault α × σ :=
  StateT.run (ExceptT.run x) s

/-- **One action after another**: the second runs when the first succeeds. -/
theorem run_bind (x : ExceptT Fault (StateM σ) α) (k : α → ExceptT Fault (StateM σ) β) (s : σ) :
    run (x >>= k) s =
      match run x s with
      | (.ok a, s') => run (k a) s'
      | (.error f, s') => (.error f, s') := by
  change StateT.run (ExceptT.run (x >>= k)) s = _
  rw [ExceptT.run_bind, StateT.run_bind]
  simp only [run]
  rcases (StateT.run (ExceptT.run x) s) with ⟨f | a, s'⟩
  · rfl
  · rfl

theorem run_bind_ok {k : α → ExceptT Fault (StateM σ) β} {s s' : σ} {a : α}
    (h : run x s = (.ok a, s')) : run (x >>= k) s = run (k a) s' := by
  rw [run_bind, h]

theorem run_bind_error {k : α → ExceptT Fault (StateM σ) β} {s s' : σ} {f : Fault}
    (h : run x s = (.error f, s')) : run (x >>= k) s = (.error f, s') := by
  rw [run_bind, h]

/-- What is made of an answer does not fail. -/
theorem run_map (x : ExceptT Fault (StateM σ) α) (g : α → β) (s : σ) :
    (run (do return g (← x)) s).1 = (run x s).1.map g := by
  rw [run_bind]
  rcases run x s with ⟨f | a, s'⟩
  · rfl
  · rfl

/-- **An action that only looks**: its answer is up to the storage, which it
leaves as it is. -/
structure Quiet (storage : σ → S) (x : ExceptT Fault (StateM σ) α)
    (answer : S → Except Fault α) : Prop where
  answers : ∀ s, (run x s).1 = answer (storage s)
  keeps : ∀ s, storage (run x s).2 = storage s

namespace Quiet

theorem pure (a : α) : Quiet storage (pure a) fun _ => .ok a := ⟨fun _ => rfl, fun _ => rfl⟩

theorem throw (f : Fault) :
    Quiet storage (throw f : ExceptT Fault (StateM σ) α) fun _ => .error f :=
  ⟨fun _ => rfl, fun _ => rfl⟩

/-- What leaves the storage as it is may be done in between. -/
theorem lift {l : StateM σ Unit} (h : ∀ s, storage (l s).2 = storage s) :
    Quiet storage (liftM l) fun _ => .ok () :=
  ⟨fun _ => rfl, h⟩

/-- **Quiet actions in sequence.** -/
theorem bind {k : α → ExceptT Fault (StateM σ) β} {answers : S → α → Except Fault β}
    (hx : Quiet storage x answer) (hk : ∀ a, Quiet storage (k a) fun d => answers d a) :
    Quiet storage (x >>= k) fun d => answer d >>= answers d := by
  have hcases : ∀ s, (run (x >>= k) s).1 = (answer (storage s) >>= answers (storage s)) ∧
      storage (run (x >>= k) s).2 = storage s := by
    intro s
    have hanswer := hx.answers s
    have hkeeps := hx.keeps s
    rcases hrun : run x s with ⟨f | a, s'⟩
    · rw [hrun] at hanswer hkeeps
      rw [run_bind_error hrun, ← hanswer]
      exact ⟨rfl, hkeeps⟩
    · rw [hrun] at hanswer hkeeps
      rw [run_bind_ok hrun, ← hanswer]
      exact ⟨((hk a).answers s').trans (congrArg (answers · a) hkeeps),
        ((hk a).keeps s').trans hkeeps⟩
  exact ⟨fun s => (hcases s).1, fun s => (hcases s).2⟩

/-- What always succeeds may come first. -/
theorem before {a : α} {k : α → ExceptT Fault (StateM σ) β} {answer : S → Except Fault β}
    (hx : Quiet storage x fun _ => .ok a) (hk : Quiet storage (k a) answer) :
    Quiet storage (x >>= k) answer := by
  have hcases : ∀ s, (run (x >>= k) s).1 = answer (storage s) ∧
      storage (run (x >>= k) s).2 = storage s := by
    intro s
    have hkeeps := hx.keeps s
    have hrun : run x s = (.ok a, (run x s).2) := Prod.ext (hx.answers s) rfl
    rw [run_bind_ok hrun]
    exact ⟨(hk.answers _).trans (congrArg answer hkeeps), (hk.keeps _).trans hkeeps⟩
  exact ⟨fun s => (hcases s).1, fun s => (hcases s).2⟩

/-- A fault may be put in its place. -/
theorem adapt (hx : Quiet storage x answer) (g : Fault → Fault) :
    Quiet storage (x.adapt g) fun d => (answer d).mapError g := by
  have hrun : ∀ s, run (x.adapt g) s = ((run x s).1.mapError g, (run x s).2) := fun s => rfl
  exact ⟨fun s => by rw [hrun, hx.answers], fun s => by rw [hrun, hx.keeps]⟩

theorem congr {answer' : S → Except Fault α} (hx : Quiet storage x answer)
    (h : ∀ d, answer d = answer' d) : Quiet storage x answer' :=
  (funext h : answer = answer') ▸ hx

end Quiet

end Action

open StraightLine.Action

/-- **A host over a storage**: what it reads is up to the storage alone, and
neither reading nor telling something changes it. -/
structure Host.Over (h : Host (StateM σ)) (storage : σ → S)
    (content : S → Path → Except Fault Bytes) : Prop where
  read : ∀ p, Quiet storage (h.read p) fun d => content d p
  log : ∀ r s, storage (h.log r s).2 = storage s

/-- Files that are only held. -/
theorem Memory.host_over : Memory.host.Over id Memory.read where
  read _ := ⟨fun _ => rfl, fun _ => rfl⟩
  log _ _ := rfl

/-- The files of a machine below a directory. -/
theorem Machine.host_over (root : RawPath) :
    (Machine.platform.host root).Over Machine.files fun files p =>
      Machine.orFault (files.read (Path.below root p)) where
  read _ := ⟨fun _ => rfl, fun _ => rfl⟩
  log _ _ := rfl

end StraightLine
