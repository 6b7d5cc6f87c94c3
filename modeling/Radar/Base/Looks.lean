import Mathlib.Data.List.Basic
import Mathlib.Logic.Relation

/-!
# Computations that look at a moving state

A computation looks at the state several times and the state moves on between
two looks. What it yields is told by a relation to the states it started and
ended in. A fact that the moves keep can be carried along a whole computation.
-/

set_option autoImplicit false

namespace Radar

inductive Looks (σ α : Type) where
  | done (a : α)
  | look (next : σ → Looks σ α)

namespace Looks

variable {σ α β : Type}

def bind : Looks σ α → (α → Looks σ β) → Looks σ β
  | done a, f => f a
  | look next, f => look fun s => (next s).bind f

instance : Monad (Looks σ) where
  pure := done
  bind := bind

/-- One look at something. -/
def ask (f : σ → α) : Looks σ α := look fun s => done (f s)

/-- The outcome when nothing moves meanwhile. -/
def now (s : σ) : Looks σ α → α
  | done a => a
  | look next => (next s).now s

/-- From `s` the computation ends with `a` in `t`, the state having moved by `R` before each look. -/
inductive Yields (R : σ → σ → Prop) : σ → Looks σ α → α → σ → Prop where
  | done (s : σ) (a : α) : Yields R s (done a) a s
  | look {s t u : σ} {next : σ → Looks σ α} {a : α} (hmove : R s t)
      (hnext : Yields R t (next t) a u) : Yields R s (look next) a u

section Rules

variable {R : σ → σ → Prop} {s t u : σ} {p : Looks σ α} {f : α → Looks σ β}
  {a a' : α} {b : β}

theorem yields_pure (h : Yields R s (pure a) a' t) : a' = a ∧ t = s := by
  cases h
  exact ⟨rfl,rfl⟩

theorem yields_done (h : Yields R s (Looks.done a) a' t) : a' = a ∧ t = s := yields_pure h

theorem yields_ask {g : σ → α} (h : Yields R s (ask g) a t) : R s t ∧ a = g t := by
  cases h with
  | look hmove hnext =>
    obtain ⟨rfl,rfl⟩ := yields_done hnext
    exact ⟨hmove,rfl⟩

theorem yields_bind (h : Yields R s (p >>= f) b u) :
    ∃ a t, Yields R s p a t ∧ Yields R t (f a) b u := by
  change Yields R s (p.bind f) b u at h
  induction p generalizing s with
  | done a => exact ⟨a,s,.done s a,h⟩
  | look next ih =>
    cases h with
    | look hmove hnext =>
      obtain ⟨a,t,hp,hf⟩ := ih _ hnext
      exact ⟨a,t,.look hmove hp,hf⟩

/-- The state that a computation ends in is one that the moves lead to. -/
theorem yields_moves (hrefl : ∀ s, R s s) (htrans : ∀ {s t u}, R s t → R t u → R s u)
    (h : Yields R s p a t) : R s t := by
  induction h with
  | done s a => exact hrefl s
  | look hmove _ ih => exact htrans hmove ih

theorem yields_now (hrefl : ∀ s, R s s) (s : σ) (p : Looks σ α) : Yields R s p (p.now s) s := by
  induction p with
  | done a => exact .done s a
  | look next ih => exact .look (hrefl s) (ih s)

end Rules

section Each

variable {R : σ → σ → Prop} {s t : σ}

/-- The looks of a list, one after the other, joined. -/
def gather (f : β → σ → List α) : List β → Looks σ (List α)
  | [] => pure []
  | b::bs => do
    let first ← ask (f b)
    let rest ← gather f bs
    return first++rest

/-- Successive moments at which the members of a list are looked at. -/
inductive Moments (R : σ → σ → Prop) : σ → List (β × σ) → σ → Prop where
  | nil {s t : σ} (hmove : R s t) : Moments R s [] t
  | cons {s t u : σ} {b : β} {ms : List (β × σ)} (hmove : R s t) (hrest : Moments R t ms u) :
      Moments R s ((b,t)::ms) u

theorem Moments.after {u : σ} {ms : List (β × σ)} (htrans : ∀ {s t u}, R s t → R t u → R s u)
    (hmove : R s t) (h : Moments R t ms u) : Moments R s ms u := by
  cases h with
  | nil hlast => exact .nil (htrans hmove hlast)
  | cons hfirst hrest => exact .cons (htrans hmove hfirst) hrest

theorem yields_gather {f : β → σ → List α} {bs : List β} {as : List α} (hrefl : ∀ s, R s s)
    (h : Yields R s (gather f bs) as t) :
    ∃ ms : List (β × σ), Moments R s ms t ∧ ms.map Prod.fst = bs ∧
      as = ms.flatMap fun m => f m.1 m.2 := by
  induction bs generalizing s as with
  | nil =>
    obtain ⟨rfl,rfl⟩ := yields_pure h
    exact ⟨[],.nil (hrefl _),rfl,rfl⟩
  | cons b bs ih =>
    obtain ⟨first,u,hfirst,hnext⟩ := yields_bind h
    obtain ⟨rest,v,hrest,hend⟩ := yields_bind hnext
    obtain ⟨hmove,rfl⟩ := yields_ask hfirst
    obtain ⟨rfl,rfl⟩ := yields_pure hend
    obtain ⟨ms,hms,rfl,rfl⟩ := ih hrest
    exact ⟨(b,u)::ms,.cons hmove hms,rfl,rfl⟩

theorem gather_map {γ : Type} (f : β → σ → List α) (g : γ → β) (cs : List γ) :
    gather f (cs.map g) = gather (fun c => f (g c)) cs := by
  induction cs with
  | nil => rfl
  | cons c cs ih => simp only [List.map_cons, gather, ih]

end Each

end Looks

end Radar
