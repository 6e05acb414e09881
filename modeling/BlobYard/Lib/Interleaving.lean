/-
Programs that run side by side.

A service answers every request with a program.  The programs of the requests that have arrived
take turns, one command at a time, on one state, until the service crashes, which ends all of
them.  What the programs keep is proved one program at a time, against a relation that says which
moves of the state the others make.

* `Service`, `Pool`, `Turn`, `Service.exec` — the turns of a service;
* `Discipline` — an invariant, and the moves that a program counts on;
* `Sound` — a program keeps to the discipline, wherever the others take the state between two of
  its commands, and its result is as promised;
* `Sound.bind`, `sound_call` and their likes for procedures — the rules;
* `Service.keeps` — programs that keep to the discipline keep the invariant in every run.
-/
import BlobYard.Lib.Program
import BlobYard.Lib.Run
import Mathlib.Data.Nat.Notation

variable {C Q D : Type} {R : C → Type} {σ α β ε : Type}

/-! ### Services -/

/-- What a service does.  Outside circumstances `D` decide how a command goes, and how far it has
come when the service crashes. -/
structure Service (C : Type) (R : C → Type) (σ Q D : Type) where
  perform : (c : C) → D → σ → R c × σ
  crash : C → D → σ → σ
  /-- What the arrival of a request records. -/
  arrive : Q → σ → σ
  body : Q → Program C R Unit

/-- The state and the programs that have not ended. -/
structure Pool (C : Type) (R : C → Type) (σ : Type) where
  state : σ
  programs : List (Program C R Unit)

/-- What happens next: a request arrives, the program at a place performs its next command, or the
service crashes while it does. -/
inductive Turn (Q D : Type) where
  | arrive (request : Q)
  | perform (index : ℕ) (circumstances : D)
  | crash (index : ℕ) (circumstances : D)

namespace Service

variable (svc : Service C R σ Q D)

def exec (w : Pool C R σ) : Turn Q D → Pool C R σ
  | .arrive request =>
    { state := svc.arrive request w.state, programs := w.programs ++ [svc.body request] }
  | .perform index circumstances =>
    match w.programs[index]? with
    | some (.step c next) =>
      { state := (svc.perform c circumstances w.state).2
        programs := w.programs.set index (next (svc.perform c circumstances w.state).1) }
    | _ => w
  | .crash index circumstances =>
    match w.programs[index]? with
    | some (.step c _) => { state := svc.crash c circumstances w.state, programs := [] }
    | _ => { w with programs := [] }

/-- The turns of the service in any order, from a state in which nothing runs. -/
def system (init : σ) : System (Pool C R σ) (Turn Q D) where
  init := { state := init, programs := [] }
  step w turn w' := w' = svc.exec w turn

end Service

/-! ### Disciplines -/

/-- An invariant, and the moves of the state that everyone keeps to. -/
structure Discipline (σ : Type) where
  inv : σ → Prop
  rely : σ → σ → Prop
  refl : ∀ s, rely s s
  trans : ∀ {s t u}, rely s t → rely t u → rely s u

/-- What is known of a state is known of the later ones. -/
def Discipline.Stable (d : Discipline σ) (P : σ → Prop) : Prop := ∀ s t, P s → d.rely s t → P t

theorem Discipline.stable_true (d : Discipline σ) : d.Stable fun _ => True :=
  fun _ _ _ _ => trivial

/-- A move that keeps the invariant. -/
structure Discipline.Move (d : Discipline σ) (s s' : σ) : Prop where
  inv : d.inv s'
  rely : d.rely s s'

theorem Discipline.Move.refl {d : Discipline σ} {s : σ} (h : d.inv s) : d.Move s s :=
  ⟨h, d.refl s⟩

/-- The command keeps to the discipline, however it goes. -/
structure Service.Lawful (svc : Service C R σ Q D) (d : Discipline σ) (c : C) (s : σ) : Prop where
  perform : ∀ circumstances, d.Move s (svc.perform c circumstances s).2
  crash : ∀ circumstances, d.inv (svc.crash c circumstances s)

namespace Program

/-- The program keeps to the discipline and its result is as `P` says.  Before each of its commands
and at its end, the others may have taken the state to any later one. -/
def Sound (svc : Service C R σ Q D) (d : Discipline σ) :
    Program C R α → (α → σ → Prop) → σ → Prop
  | done a, P, s => ∀ t, d.rely s t → d.inv t → P a t
  | step c next, P, s => ∀ t, d.rely s t → d.inv t → svc.Lawful d c t ∧
    ∀ circumstances, Sound svc d (next (svc.perform c circumstances t).1) P
      (svc.perform c circumstances t).2

variable {svc : Service C R σ Q D} {d : Discipline σ} {p : Program C R α} {P P' : α → σ → Prop}
  {s t : σ}

/-- The moves of the others do no harm. -/
theorem Sound.later (h : p.Sound svc d P s) (hrely : d.rely s t) : p.Sound svc d P t := by
  cases p with
  | done a =>
    intro u hu hinv
    exact h u (d.trans hrely hu) hinv
  | step c next =>
    intro u hu hinv
    exact h u (d.trans hrely hu) hinv

/-- A program is sound when it is from wherever the others may take the state first. -/
theorem sound_of_later (h : ∀ t, d.rely s t → d.inv t → p.Sound svc d P t) :
    p.Sound svc d P s := by
  cases p with
  | done a =>
    intro t ht hinv
    exact h t ht hinv t (d.refl t) hinv
  | step c next =>
    intro t ht hinv
    exact h t ht hinv t (d.refl t) hinv

theorem sound_done {a : α} (h : ∀ t, d.rely s t → d.inv t → P a t) :
    (done a : Program C R α).Sound svc d P s := h

/-- The sequence rule; what was known at the start is still known in the middle, if stable. -/
theorem Sound.bind {f : α → Program C R β} {P' : β → σ → Prop} (h : p.Sound svc d P s)
    (hf : ∀ a t, d.rely s t → d.inv t → P a t → (f a).Sound svc d P' t) :
    (p.bind f).Sound svc d P' s := by
  induction p generalizing s with
  | done a =>
    show (f a).Sound svc d P' s
    refine sound_of_later fun t ht hinv => ?_
    exact hf a t ht hinv (h t ht hinv)
  | step c next ih =>
    intro t ht hinv
    obtain ⟨hlawful, hnext⟩ := h t ht hinv
    refine ⟨hlawful, fun circumstances => ih _ (hnext circumstances) fun a u hu => ?_⟩
    exact hf a u (d.trans ht (d.trans (hlawful.perform circumstances).rely hu))

theorem Sound.mono (h : p.Sound svc d P s) (hP : ∀ a t, d.inv t → P a t → P' a t) :
    p.Sound svc d P' s := by
  induction p generalizing s with
  | done a =>
    intro t ht hinv
    exact hP a t hinv (h t ht hinv)
  | step c next ih =>
    intro t ht hinv
    obtain ⟨hlawful, hnext⟩ := h t ht hinv
    exact ⟨hlawful, fun circumstances => ih _ (hnext circumstances)⟩

/-- The rule for one command: it keeps to the discipline, and what is then known of its answer is
stable. -/
theorem sound_call {c : C} {P : R c → σ → Prop} (hstable : ∀ r, d.Stable (P r))
    (h : ∀ t, d.rely s t → d.inv t → svc.Lawful d c t ∧ ∀ circumstances,
      P (svc.perform c circumstances t).1 (svc.perform c circumstances t).2) :
    (call c).Sound svc d P s := by
  intro t ht hinv
  obtain ⟨hlawful, hresult⟩ := h t ht hinv
  exact ⟨hlawful, fun circumstances u hu _ => hstable _ _ _ (hresult circumstances) hu⟩

end Program

/-! ### Procedures -/

namespace Procedure

/-- A procedure keeps to the discipline; where it ends without an error, its result is as `P`
says. -/
def Sound (svc : Service C R σ Q D) (d : Discipline σ) (x : Procedure C R ε α)
    (P : α → σ → Prop) (s : σ) : Prop :=
  x.program.Sound svc d (fun r t => ∀ a, r = .ok a → P a t) s

variable {svc : Service C R σ Q D} {d : Discipline σ} {x : Procedure C R ε α}
  {P P' : α → σ → Prop} {s t : σ}

theorem Sound.mono (h : x.Sound svc d P s) (hP : ∀ a t, d.inv t → P a t → P' a t) :
    x.Sound svc d P' s :=
  Program.Sound.mono h fun _ t hinv hr a ha => hP a t hinv (hr a ha)

/-- A procedure without a promise about its result. -/
theorem Sound.forget (h : x.Sound svc d P s) : x.Sound svc d (fun _ _ => True) s :=
  h.mono fun _ _ _ _ => trivial

theorem sound_pure {a : α} (h : ∀ t, d.rely s t → d.inv t → P a t) :
    (pure a : Procedure C R ε α).Sound svc d P s := by
  refine Program.sound_done fun t ht hinv b hb => ?_
  obtain rfl := Except.ok.inj hb
  exact h t ht hinv

theorem sound_fail {e : ε} : (fail e : Procedure C R ε α).Sound svc d P s := by
  refine Program.sound_done fun t _ _ a ha => ?_
  cases ha

theorem sound_lift {r : Except ε α} (h : ∀ a, r = .ok a → ∀ t, d.rely s t → d.inv t → P a t) :
    (lift r : Procedure C R ε α).Sound svc d P s :=
  Program.sound_done fun t ht hinv a ha => h a ha t ht hinv

/-- The sequence rule. -/
theorem Sound.bind {f : α → Procedure C R ε β} {P' : β → σ → Prop} (h : x.Sound svc d P s)
    (hf : ∀ a t, d.rely s t → d.inv t → P a t → (f a).Sound svc d P' t) :
    (x >>= f).Sound svc d P' s := by
  refine Program.Sound.bind h fun r t ht hinv hr => ?_
  cases r with
  | ok a => exact hf a t ht hinv (hr a rfl)
  | error e =>
    refine Program.sound_done fun u _ _ b hb => ?_
    cases hb

/-- A computed result goes on where it is not an error. -/
theorem sound_lift_bind {r : Except ε α} {f : α → Procedure C R ε β} {P' : β → σ → Prop}
    (h : ∀ a, r = .ok a → (f a).Sound svc d P' s) : (lift r >>= f).Sound svc d P' s := by
  cases r with
  | ok a => exact h a rfl
  | error e => exact sound_fail

/-- An action whose error is renamed. -/
theorem sound_attempt {ε' : Type} {rename : ε' → ε} {p : Program C R (Except ε' α)}
    (h : p.Sound svc d (fun r t => ∀ a, r = .ok a → P a t) s) (hP : ∀ a, d.Stable (P a)) :
    (attempt rename p).Sound svc d P s := by
  refine Program.Sound.bind h fun r t _ _ hr => ?_
  cases r with
  | ok a =>
    refine Program.sound_done fun u hu _ b hb => ?_
    obtain rfl := Except.ok.inj hb
    exact hP a _ _ (hr a rfl) hu
  | error e =>
    refine Program.sound_done fun u _ _ b hb => ?_
    cases hb

/-- The answer of a command, an error included, as the result of an action. -/
def ask (c : C) : Procedure C R ε (R c) := ⟨(Program.call c).bind fun r => .done (.ok r)⟩

theorem sound_ask {c : C} {P : R c → σ → Prop} (h : (Program.call c).Sound svc d P s)
    (hP : ∀ r, d.Stable (P r)) : (ask c : Procedure C R ε (R c)).Sound svc d P s := by
  refine Program.Sound.bind h fun r t _ _ hr => Program.sound_done fun u hu _ b hb => ?_
  obtain rfl := Except.ok.inj hb
  exact hP r _ _ hr hu

/-- The program of a procedure that keeps to the discipline does. -/
theorem Sound.program (h : x.Sound svc d P s) :
    x.program.Sound svc d (fun r t => ∀ a, r = .ok a → P a t) s := h

-- the rules are all that is used of procedures; unfolding would evaluate their programs
attribute [irreducible] Sound

end Procedure

/-! ### Runs -/

namespace Service

variable {svc : Service C R σ Q D} {d : Discipline σ}

/-- The invariant holds, and every program keeps to the discipline from here. -/
structure Disciplined (svc : Service C R σ Q D) (d : Discipline σ) (w : Pool C R σ) : Prop where
  inv : d.inv w.state
  programs : ∀ p ∈ w.programs, p.Sound svc d (fun _ _ => True) w.state

variable {w : Pool C R σ}

/-- Every turn keeps a pool disciplined. -/
theorem Disciplined.exec {turn : Turn Q D} (h : Disciplined svc d w)
    (harrive : ∀ q, turn = .arrive q → d.Move w.state (svc.arrive q w.state) ∧
      (svc.body q).Sound svc d (fun _ _ => True) (svc.arrive q w.state)) :
    Disciplined svc d (svc.exec w turn) := by
  cases turn with
  | arrive request =>
    obtain ⟨hmove, hbody⟩ := harrive request rfl
    refine ⟨hmove.inv, fun q hq => ?_⟩
    rcases List.mem_append.mp hq with hq | hq
    · exact (h.programs q hq).later hmove.rely
    · obtain rfl := List.mem_singleton.mp hq
      exact hbody
  | perform index circumstances =>
    simp only [Service.exec]
    split
    -- the program whose turn it is goes on, and the others are sound after its move
    · rename_i c next hget
      have hsound := h.programs _ (List.mem_of_getElem? hget)
      obtain ⟨hlawful, hnext⟩ := hsound w.state (d.refl _) h.inv
      have hmove := hlawful.perform circumstances
      refine ⟨hmove.inv, fun q hq => ?_⟩
      rcases List.mem_or_eq_of_mem_set hq with hq | rfl
      · exact (h.programs q hq).later hmove.rely
      · exact hnext circumstances
    · exact h
  | crash index circumstances =>
    simp only [Service.exec]
    split
    · rename_i c next hget
      have hsound := h.programs _ (List.mem_of_getElem? hget)
      obtain ⟨hlawful, -⟩ := hsound w.state (d.refl _) h.inv
      exact ⟨hlawful.crash circumstances, fun q hq => absurd hq List.not_mem_nil⟩
    · exact ⟨h.inv, fun q hq => absurd hq List.not_mem_nil⟩

/-- Programs that keep to the discipline keep the invariant in every run. -/
theorem keeps {init : σ} {guard : Pool C R σ → Turn Q D → Prop} (hinit : d.inv init)
    (harrive : ∀ w q, guard w (.arrive q) → d.inv w.state →
      d.Move w.state (svc.arrive q w.state) ∧
        (svc.body q).Sound svc d (fun _ _ => True) (svc.arrive q w.state))
    (h : Run (svc.system init) guard w) : d.inv w.state := by
  have hdisciplined : Disciplined svc d w := by
    refine Run.inv (P := Disciplined svc d) ⟨hinit, fun p hp => absurd hp List.not_mem_nil⟩ ?_ h
    rintro w turn w' hw hguard rfl
    refine hw.exec fun q hq => ?_
    subst hq
    exact harrive w q hguard hw.inv
  exact hdisciplined.inv

end Service
