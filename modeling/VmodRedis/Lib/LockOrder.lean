import Mathlib.Data.Finset.Basic
import Mathlib.Logic.Relation
import VmodRedis.Lib.TransitionSystem

/-!
Programs seen through the mutexes that they lock and unlock, and the discipline that keeps a set of
threads running them from waiting for each other in a circle: a mutex is locked only when it comes
after every mutex held.
-/

namespace VmodRedis.LockOrder

open TransitionSystem

inductive Act (μ : Type*) where
  | lock (m : μ)
  | unlock (m : μ)
  | assertHeld (m : μ)
  deriving DecidableEq

inductive Exit where
  | falls
  | breaks
  | returns
  | cut
  deriving DecidableEq

variable {μ ι : Type*}

structure Code (μ : Type*) where
  Path : List (Act μ) → Exit → Prop
  interrupted : ∀ x y e, Path (x ++ y) e → Path x .cut

namespace Code

variable {p q : Code μ} {x y : List (Act μ)} {e : Exit}

def leave (exit : Exit) : Code μ where
  Path x e := x = [] ∧ (e = exit ∨ e = .cut)
  interrupted _ _ _ h := ⟨(List.append_eq_nil_iff.mp h.1).1, Or.inr rfl⟩

def skip : Code μ := leave .falls

def brk : Code μ := leave .breaks

def ret : Code μ := leave .returns

def act (a : Act μ) : Code μ where
  Path x e := x = [] ∧ e = .cut ∨ x = [a] ∧ (e = .falls ∨ e = .cut)
  interrupted x y e h := by
    obtain ⟨hx, -⟩ | ⟨hx, -⟩ := h
    · exact Or.inl ⟨(List.append_eq_nil_iff.mp hx).1, rfl⟩
    · obtain ⟨rfl, -⟩ | ⟨rfl, -⟩ := List.append_eq_singleton_iff.mp hx
      · exact Or.inl ⟨rfl, rfl⟩
      · exact Or.inr ⟨rfl, Or.inr rfl⟩

def lock (m : μ) : Code μ := act (.lock m)

def unlock (m : μ) : Code μ := act (.unlock m)

def assertHeld (m : μ) : Code μ := act (.assertHeld m)

def seq (p q : Code μ) : Code μ where
  Path x e := p.Path x e ∧ e ≠ .falls ∨ ∃ y z, x = y ++ z ∧ p.Path y .falls ∧ q.Path z e
  interrupted x y e h := by
    obtain ⟨hp, -⟩ | ⟨u, v, he, hp, hq⟩ := h
    · exact Or.inl ⟨p.interrupted x y e hp, nofun⟩
    · obtain ⟨w, rfl, rfl⟩ | ⟨w, rfl, rfl⟩ := List.append_eq_append_iff.mp he
      · exact Or.inl ⟨p.interrupted x w .falls hp, nofun⟩
      · exact Or.inr ⟨u, w, rfl, hp, q.interrupted w y e hq⟩

def steps (l : List (Code μ)) : Code μ := l.foldr seq skip

/-- One of the programs, as data that is not modelled decides. -/
def any (p : ι → Code μ) : Code μ where
  Path x e := ∃ i, (p i).Path x e
  interrupted x y e h := h.imp fun i hp => (p i).interrupted x y e hp

def either (p q : Code μ) : Code μ := any fun b : Bool => if b then p else q

def optional (p : Code μ) : Code μ := either p skip

def when (b : Bool) (p : Code μ) : Code μ := bif b then p else skip

def reroute (f : Exit → Exit) (hf : f .cut = .cut) (p : Code μ) : Code μ where
  Path x e := ∃ e', p.Path x e' ∧ f e' = e
  interrupted x y _ := fun ⟨e', hp, _⟩ => ⟨.cut, p.interrupted x y e' hp, hf⟩

def fn (l : List (Code μ)) : Code μ :=
  reroute (fun e => if e = .cut then .cut else .falls) rfl (steps l)

def label (l : List (Code μ)) : Code μ :=
  reroute (fun e => if e = .breaks then .falls else e) rfl (steps l)

/-- `Lck_CondWait`: the mutex is released while the thread waits. -/
def condWait (m : μ) : Code μ := steps [assertHeld m, unlock m, lock m]

inductive Rounds (p : Code μ) : List (Act μ) → Exit → Prop
  | done (x : List (Act μ)) (h : p.Path x .breaks) : Rounds p x .falls
  | exit (x : List (Act μ)) (e : Exit) (h : p.Path x e) (he : e = .returns ∨ e = .cut) : Rounds p x e
  | again (x y : List (Act μ)) (e : Exit) (h : p.Path x .falls) (hr : Rounds p y e) : Rounds p (x ++ y) e

theorem Rounds.interrupted {z : List (Act μ)} (h : Rounds p z e) :
    ∀ x y, z = x ++ y → Rounds p x .cut := by
  induction h with
  | done z h =>
    rintro x y rfl
    exact Rounds.exit x .cut (p.interrupted x y .breaks h) (Or.inr rfl)
  | exit z e h _ =>
    rintro x y rfl
    exact Rounds.exit x .cut (p.interrupted x y e h) (Or.inr rfl)
  | again u v e h _ ih =>
    intro x y he
    obtain ⟨w, rfl, rfl⟩ | ⟨w, rfl, rfl⟩ := List.append_eq_append_iff.mp he
    · exact Rounds.again u w .cut h (ih w y rfl)
    · exact Rounds.exit x .cut (p.interrupted x w .falls h) (Or.inr rfl)

def forever (l : List (Code μ)) : Code μ where
  Path := Rounds (steps l)
  interrupted x y _ h := h.interrupted x y rfl

end Code

/-! ### The discipline -/

section Above

variable [Preorder μ]

def Above (held : Finset μ) (m : μ) : Prop := ∀ h ∈ held, h < m

theorem Above.notMem {held : Finset μ} {m : μ} (h : Above held m) : m ∉ held :=
  fun hm => lt_irrefl m (h m hm)

theorem above_empty (m : μ) : Above ∅ m := fun _ hh => absurd hh (Finset.notMem_empty _)

end Above

variable [DecidableEq μ]

def Act.effect (held : Finset μ) : Act μ → Finset μ
  | lock m => insert m held
  | unlock m => held.erase m
  | assertHeld _ => held

def heldAfter (held : Finset μ) (x : List (Act μ)) : Finset μ := x.foldl Act.effect held

section Discipline

variable [Preorder μ]

theorem Above.insert {held : Finset μ} {m n : μ} (h : Above held n) (hm : m < n) : Above (insert m held) n := by
  intro k hk
  obtain rfl | hk := Finset.mem_insert.mp hk
  · exact hm
  · exact h k hk

def Act.Allowed (held : Finset μ) : Act μ → Prop
  | lock m => Above held m
  | unlock m => m ∈ held
  | assertHeld m => m ∈ held

inductive Follows : Finset μ → List (Act μ) → Finset μ → Prop
  | nil (held : Finset μ) : Follows held [] held
  | cons (held final : Finset μ) (a : Act μ) (x : List (Act μ)) (h : a.Allowed held)
      (hx : Follows (a.effect held) x final) : Follows held (a :: x) final

variable {held mid final : Finset μ} {x y : List (Act μ)}

theorem Follows.append (hx : Follows held x mid) (hy : Follows mid y final) : Follows held (x ++ y) final := by
  induction hx with
  | nil _ => exact hy
  | cons _ _ a x h _ ih => exact .cons _ _ a _ h (ih hy)

theorem Follows.heldAfter (h : Follows held x final) : heldAfter held x = final := by
  induction h with
  | nil _ => rfl
  | cons _ _ _ _ _ _ ih => exact ih

theorem Follows.allowed (h : Follows held x final) {before after : List (Act μ)} {a : Act μ}
    (hx : x = before ++ a :: after) : a.Allowed (LockOrder.heldAfter held before) := by
  induction h generalizing before with
  | nil _ => exact absurd hx (by simp)
  | cons held final b y hb _ ih =>
    cases before with
    | nil =>
      obtain ⟨rfl, -⟩ := List.cons.inj hx
      exact hb
    | cons c before =>
      obtain ⟨rfl, hy⟩ := List.cons.inj hx
      exact ih hy

/-- Every path of the program, started with `held`, keeps the discipline; it falls through with
`falls` held, breaks with `breaks` and returns with `returns`. -/
def Spec (held : Finset μ) (p : Code μ) (falls breaks returns : Finset μ) : Prop :=
  ∀ x e, p.Path x e → ∃ final, Follows held x final ∧
    (e = .falls → final = falls) ∧ (e = .breaks → final = breaks) ∧ (e = .returns → final = returns)

def Keeps (held : Finset μ) (p : Code μ) : Prop := ∀ breaks returns, Spec held p held breaks returns

namespace Spec

variable {p q : Code μ} {falls breaks returns out out' : Finset μ} {m : μ} {l : List (Code μ)}

theorem leave (exit : Exit) (h : exit = .falls → held = falls) (h' : exit = .breaks → held = breaks)
    (h'' : exit = .returns → held = returns) : Spec held (.leave exit) falls breaks returns := by
  rintro x e ⟨rfl, rfl | rfl⟩
  · exact ⟨held, .nil held, h, h', h''⟩
  · exact ⟨held, .nil held, nofun, nofun, nofun⟩

theorem skip : Spec held .skip held breaks returns := leave .falls (fun _ => rfl) nofun nofun

theorem brk : Spec held .brk falls held returns := leave .breaks nofun (fun _ => rfl) nofun

theorem ret : Spec held .ret falls breaks held := leave .returns nofun nofun fun _ => rfl

theorem act {a : Act μ} (h : a.Allowed held) : Spec held (.act a) (a.effect held) breaks returns := by
  rintro x e (⟨rfl, rfl⟩ | ⟨rfl, he⟩)
  · exact ⟨held, .nil held, nofun, nofun, nofun⟩
  · refine ⟨a.effect held, .cons _ _ a [] h (.nil _), fun _ => rfl, ?_, ?_⟩
    · rintro rfl
      exact absurd he (by decide)
    · rintro rfl
      exact absurd he (by decide)

theorem lock (h : Above held m) : Spec held (.lock m) (insert m held) breaks returns := act h

theorem unlock (h : m ∉ held) : Spec (insert m held) (.unlock m) held breaks returns := by
  have hact : Spec (insert m held) (.unlock m) ((insert m held).erase m) breaks returns :=
    act (a := .unlock m) (Finset.mem_insert_self m held)
  rwa [Finset.erase_insert h] at hact

theorem assertHeld (h : m ∈ held) : Spec held (.assertHeld m) held breaks returns := act (a := .assertHeld m) h

theorem seq (hp : Spec held p mid breaks returns) (hq : Spec mid q falls breaks returns) :
    Spec held (.seq p q) falls breaks returns := by
  rintro x e (⟨hx, he⟩ | ⟨y, z, rfl, hy, hz⟩)
  · obtain ⟨final, hf, -, hb, hr⟩ := hp x e hx
    exact ⟨final, hf, fun h => absurd h he, hb, hr⟩
  · obtain ⟨k, hk, hkf, -⟩ := hp y .falls hy
    obtain rfl := hkf rfl
    obtain ⟨final, hf, hpost⟩ := hq z e hz
    exact ⟨final, hk.append hf, hpost⟩

theorem nil : Spec held (.steps []) held breaks returns := skip

theorem cons (hp : Spec held p mid breaks returns) (hl : Spec mid (.steps l) falls breaks returns) :
    Spec held (.steps (p :: l)) falls breaks returns := seq hp hl

theorem any {p : ι → Code μ} (h : ∀ i, Spec held (p i) falls breaks returns) :
    Spec held (.any p) falls breaks returns := fun x e ⟨i, hi⟩ => h i x e hi

theorem either (hp : Spec held p falls breaks returns) (hq : Spec held q falls breaks returns) :
    Spec held (.either p q) falls breaks returns := by
  apply any
  intro b
  cases b
  · exact hq
  · exact hp

theorem optional (hp : Spec held p held breaks returns) : Spec held (.optional p) held breaks returns :=
  either hp skip

theorem condWait (h : Above held m) : Spec (insert m held) (.condWait m) (insert m held) breaks returns :=
  cons (assertHeld (Finset.mem_insert_self m held)) (cons (unlock h.notMem) (cons (lock h) nil))

theorem fn (h : Spec held (.steps l) falls falls falls) : Spec held (.fn l) falls breaks returns := by
  rintro x e ⟨e', hx, rfl⟩
  obtain ⟨final, hf, h1, h2, h3⟩ := h x e' hx
  refine ⟨final, hf, ?_⟩
  cases e' with
  | falls => exact ⟨fun _ => h1 rfl, nofun, nofun⟩
  | breaks => exact ⟨fun _ => h2 rfl, nofun, nofun⟩
  | returns => exact ⟨fun _ => h3 rfl, nofun, nofun⟩
  | cut => exact ⟨nofun, nofun, nofun⟩

theorem label (h : Spec held (.steps l) falls falls returns) : Spec held (.label l) falls breaks returns := by
  rintro x e ⟨e', hx, rfl⟩
  obtain ⟨final, hf, h1, h2, h3⟩ := h x e' hx
  refine ⟨final, hf, ?_⟩
  cases e' with
  | falls => exact ⟨fun _ => h1 rfl, nofun, nofun⟩
  | breaks => exact ⟨fun _ => h2 rfl, nofun, nofun⟩
  | returns => exact ⟨nofun, nofun, h3⟩
  | cut => exact ⟨nofun, nofun, nofun⟩

theorem forever (h : Spec held (.steps l) held falls returns) : Spec held (.forever l) falls breaks returns := by
  intro x e hx
  induction hx with
  | done x hx =>
    obtain ⟨final, hf, -, hb, -⟩ := h x .breaks hx
    exact ⟨final, hf, fun _ => hb rfl, nofun, nofun⟩
  | exit x e hx he =>
    obtain ⟨final, hf, -, -, hr⟩ := h x e hx
    refine ⟨final, hf, ?_, ?_, hr⟩
    · rintro rfl
      exact absurd he (by decide)
    · rintro rfl
      exact absurd he (by decide)
  | again x y e hx _ ih =>
    obtain ⟨k, hk, hkf, -⟩ := h x .falls hx
    obtain rfl := hkf rfl
    obtain ⟨final, hf, hpost⟩ := ih
    exact ⟨final, hk.append hf, hpost⟩

theorem path {e : Exit} (h : Spec ∅ p ∅ ∅ ∅) (hx : p.Path x e) :
    (∀ before a after, x = before ++ a :: after → a.Allowed (heldAfter ∅ before)) ∧
      (e ≠ .cut → heldAfter ∅ x = ∅) := by
  obtain ⟨final, hf, h1, h2, h3⟩ := h x e hx
  constructor
  · intro before a after he
    exact hf.allowed he
  · intro he
    rw [hf.heldAfter]
    cases e with
    | falls => exact h1 rfl
    | breaks => exact h2 rfl
    | returns => exact h3 rfl
    | cut => exact absurd rfl he

end Spec

/-! ### Threads -/

variable {θ : Type*}

def Holds (s : θ → List (Act μ)) (t : θ) (m : μ) : Prop := m ∈ heldAfter ∅ (s t)

def Wants (p : θ → Code μ) (s : θ → List (Act μ)) (t : θ) (m : μ) : Prop := (p t).Path (s t ++ [.lock m]) .cut

def WaitsFor (p : θ → Code μ) (s : θ → List (Act μ)) (t u : θ) : Prop := ∃ m, Wants p s t m ∧ Holds s u m

theorem Wants.above {p : θ → Code μ} {s : θ → List (Act μ)} {t : θ} {m n : μ} (hp : Spec ∅ (p t) ∅ ∅ ∅)
    (hw : Wants p s t m) (hh : Holds s t n) : n < m :=
  (hp.path hw).1 (s t) (.lock m) [] rfl n hh

theorem waitsFor_chain {p : θ → Code μ} (hp : ∀ t, Spec ∅ (p t) ∅ ∅ ∅) {s : θ → List (Act μ)} {t u : θ}
    (h : Relation.TransGen (WaitsFor p s) t u) : ∃ m n, Wants p s t m ∧ Holds s u n ∧ m ≤ n := by
  induction h with
  | single hw =>
    obtain ⟨m, hwants, hholds⟩ := hw
    exact ⟨m, m, hwants, hholds, le_rfl⟩
  | tail _ hw ih =>
    obtain ⟨m, n, hwants, hholds, hle⟩ := ih
    obtain ⟨k, hnext, hlast⟩ := hw
    exact ⟨m, k, hwants, hlast, hle.trans ((hnext.above (hp _) hholds).le)⟩

theorem no_circular_wait {p : θ → Code μ} (hp : ∀ t, Spec ∅ (p t) ∅ ∅ ∅) (s : θ → List (Act μ)) (t : θ) :
    ¬ Relation.TransGen (WaitsFor p s) t t := by
  intro h
  obtain ⟨m, n, hwants, hholds, hle⟩ := waitsFor_chain hp h
  exact absurd (hwants.above (hp t) hholds) (not_lt_of_ge hle)

/-- A thread goes one step further; a mutex that some thread holds is not locked. -/
inductive Step [DecidableEq θ] (p : θ → Code μ) : (θ → List (Act μ)) → (θ → List (Act μ)) → Prop
  | step (s : θ → List (Act μ)) (t : θ) (a : Act μ) (h : (p t).Path (s t ++ [a]) .cut)
      (hfree : ∀ m, a = .lock m → ∀ u, ¬ Holds s u m) : Step p s (Function.update s t (s t ++ [a]))

def threads [DecidableEq θ] (p : θ → Code μ) : System (θ → List (Act μ)) where
  init s := s = fun _ => []
  step := Step p

end Discipline

end VmodRedis.LockOrder
