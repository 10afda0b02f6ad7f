import Mathlib.Logic.Relation

/-!
# Programs over a shared state

A program is a sequence of atomic steps on a state that outlives it: it may stop with a result or
with an exception, and neither undoes the steps it has made. `Prog.run` executes a program alone;
`Prog.Sat` is rely-guarantee reasoning about a program whose steps interleave with those of
others.
-/

namespace Codey

/-- A program over the state `σ` with exceptions `ε`. In `step upd next` the state moves from `s`
to `upd s` at once, and the rest of the program is `next s`: it depends on what the step saw. -/
inductive Prog (σ ε α : Type) where
  | ret (a : α)
  | throw (e : ε)
  | step (upd : σ → σ) (next : σ → Prog σ ε α)

namespace Prog

variable {σ ε α β γ : Type}

/-- Continue with the result of a program. -/
def bind : Prog σ ε α → (α → Prog σ ε β) → Prog σ ε β
  | ret a, f => f a
  | throw e, _ => throw e
  | step upd next, f => step upd fun s => (next s).bind f

/-- Continue after an exception. -/
def handle : Prog σ ε α → (ε → Prog σ ε α) → Prog σ ε α
  | ret a, _ => ret a
  | throw e, h => h e
  | step upd next, h => step upd fun s => (next s).handle h

instance : Monad (Prog σ ε) where
  pure := ret
  bind := bind

/-- Read the state. -/
def read : Prog σ ε σ := step id ret

/-- Read one value off the state, or raise. -/
def readE (f : σ → Except ε α) : Prog σ ε α :=
  step id fun s => match f s with
    | .ok a => ret a
    | .error e => throw e

/-- Raise the exception of a computation that does not look at the state. -/
def ofExcept : Except ε α → Prog σ ε α
  | .ok a => ret a
  | .error e => throw e

/-- Run a program on every item of a list, in order. -/
def forEach (xs : List α) (f : α → Prog σ ε Unit) : Prog σ ε Unit :=
  match xs with
  | [] => ret ()
  | x :: xs => (f x).bind fun _ => forEach xs f

/-- Execute a program alone: its outcome and the state it leaves. -/
def run : Prog σ ε α → σ → Except ε α × σ
  | ret a, s => (.ok a, s)
  | throw e, s => (.error e, s)
  | step upd next, s => (next s).run (upd s)

@[simp] lemma pure_eq (a : α) : (pure a : Prog σ ε α) = ret a := rfl

@[simp] lemma bind_eq (p : Prog σ ε α) (f : α → Prog σ ε β) : p >>= f = p.bind f := rfl

@[simp] lemma ret_bind (a : α) (f : α → Prog σ ε β) : (ret a).bind f = f a := rfl

@[simp] lemma throw_bind (e : ε) (f : α → Prog σ ε β) : (throw e).bind f = throw e := rfl

@[simp] lemma step_bind (upd : σ → σ) (next : σ → Prog σ ε α) (f : α → Prog σ ε β) :
    (step upd next).bind f = step upd fun s => (next s).bind f := rfl

@[simp] lemma run_ret (a : α) (s : σ) : (ret a : Prog σ ε α).run s = (.ok a, s) := rfl

@[simp] lemma run_throw (e : ε) (s : σ) : (throw e : Prog σ ε α).run s = (.error e, s) := rfl

@[simp] lemma run_step (upd : σ → σ) (next : σ → Prog σ ε α) (s : σ) :
    (step upd next).run s = (next s).run (upd s) := rfl

lemma bind_assoc (p : Prog σ ε α) (f : α → Prog σ ε β) (g : β → Prog σ ε γ) :
    (p.bind f).bind g = p.bind fun a => (f a).bind g := by
  induction p with
  | ret a => rfl
  | throw e => rfl
  | step upd next ih => simp only [step_bind, ih]

/-- A sequence runs its first part, and its second part on what the first one left. -/
lemma run_bind (p : Prog σ ε α) (f : α → Prog σ ε β) (s : σ) :
    (p.bind f).run s = match p.run s with
      | (.ok a, s') => (f a).run s'
      | (.error e, s') => (.error e, s') := by
  induction p generalizing s with
  | ret a => rfl
  | throw e => rfl
  | step upd next ih => simp only [step_bind, run_step, ih]

lemma run_bind_ok {p : Prog σ ε α} {f : α → Prog σ ε β} {s s' : σ} {a : α}
    (h : p.run s = (.ok a, s')) : (p.bind f).run s = (f a).run s' := by
  rw [run_bind, h]

lemma run_bind_error {p : Prog σ ε α} {f : α → Prog σ ε β} {s s' : σ} {e : ε}
    (h : p.run s = (.error e, s')) : (p.bind f).run s = (.error e, s') := by
  rw [run_bind, h]

@[simp] lemma ofExcept_ok (a : α) : (ofExcept (.ok a) : Prog σ ε α) = ret a := rfl

lemma readE_bind_ret (f : σ → Except ε α) (g : α → β) :
    (readE f).bind (fun a => ret (g a)) = readE fun s => (f s).map g := by
  simp only [readE, step_bind]
  congr 1
  funext s
  cases f s <;> rfl

/-- Computations that do not look at the state are combined before they are run. -/
lemma ofExcept_bind (x : Except ε α) (f : α → Except ε β) (g : β → Prog σ ε γ) :
    (ofExcept x).bind (fun a => (ofExcept (f a)).bind g) = (ofExcept (x >>= f)).bind g := by
  cases x <;> rfl

lemma run_handle (p : Prog σ ε α) (h : ε → Prog σ ε α) (s : σ) :
    (p.handle h).run s = match p.run s with
      | (.ok a, s') => (.ok a, s')
      | (.error e, s') => (h e).run s' := by
  induction p generalizing s with
  | ret a => rfl
  | throw e => rfl
  | step upd next ih => simp only [handle, run_step, ih]

@[simp] lemma run_read (s : σ) : (read : Prog σ ε σ).run s = (.ok s, s) := rfl

@[simp] lemma run_readE (f : σ → Except ε α) (s : σ) : (readE f).run s = (f s, s) := by
  simp only [readE, run_step, id]
  cases f s <;> rfl

@[simp] lemma run_ofExcept (r : Except ε α) (s : σ) : (ofExcept r).run s = (r, s) := by
  cases r <;> rfl

/-! ### Rely-guarantee reasoning -/

/-- `Sat R G Q K p`: started in a state of `K`, with others moving the state along `R` between its
steps, `p` makes only steps of `G`, and ends in a knowledge of the state that satisfies `Q`. What
a program knows after a step from `s` is that the state has evolved from `upd s`. -/
def Sat (R G : σ → σ → Prop) (Q : Except ε α → (σ → Prop) → Prop) :
    (σ → Prop) → Prog σ ε α → Prop
  | K, ret a => Q (.ok a) K
  | K, throw e => Q (.error e) K
  | K, step upd next => ∀ s, K s → G s (upd s) ∧ Sat R G Q (R (upd s)) (next s)

/-- Knowledge that the steps of others do not invalidate. -/
def Stable (R : σ → σ → Prop) (K : σ → Prop) : Prop := ∀ s s', K s → R s s' → K s'

section Sat

variable {R G : σ → σ → Prop}

variable {p : Prog σ ε α} {f : α → Prog σ ε β}

lemma sat_bind {K : σ → Prop} {Q : Except ε β → (σ → Prop) → Prop} :
    Sat R G Q K (p.bind f) ↔
      Sat R G (fun r K' => match r with
        | .ok a => Sat R G Q K' (f a)
        | .error e => Q (.error e) K') K p := by
  induction p generalizing K with
  | ret a => rfl
  | throw e => rfl
  | step upd next ih => simp only [step_bind, Sat, ih]

lemma sat_handle {h : ε → Prog σ ε α} {K : σ → Prop} {Q : Except ε α → (σ → Prop) → Prop} :
    Sat R G Q K (p.handle h) ↔
      Sat R G (fun r K' => match r with
        | .ok a => Q (.ok a) K'
        | .error e => Sat R G Q K' (h e)) K p := by
  induction p generalizing K with
  | ret a => rfl
  | throw e => rfl
  | step upd next ih => simp only [handle, Sat, ih]

lemma Sat.mono {Q Q' : Except ε α → (σ → Prop) → Prop} {K K' : σ → Prop} (h : Sat R G Q K p)
    (hK : ∀ s, K' s → K s) (hQ : ∀ r K₁, Q r K₁ → ∀ K₂ : σ → Prop, (∀ s, K₂ s → K₁ s) → Q' r K₂) :
    Sat R G Q' K' p := by
  induction p generalizing K K' with
  | ret a => exact hQ _ _ h _ hK
  | throw e => exact hQ _ _ h _ hK
  | step upd next ih =>
    intro s hs
    obtain ⟨hG, hn⟩ := h s (hK s hs)
    exact ⟨hG, ih s hn (fun _ h => h)⟩

lemma Sat.imp {Q Q' : Except ε α → (σ → Prop) → Prop} {K : σ → Prop} (h : Sat R G Q K p)
    (hQ : ∀ r K₁, Q r K₁ → Q' r K₁) : Sat R G Q' K p := by
  induction p generalizing K with
  | ret a => exact hQ _ _ h
  | throw e => exact hQ _ _ h
  | step upd next ih => exact fun s hs => ⟨(h s hs).1, ih s (h s hs).2⟩

/-- A program that guarantees its steps guarantees weaker ones. -/
lemma Sat.guarantee {Q : Except ε α → (σ → Prop) → Prop} {K : σ → Prop} {G' : σ → σ → Prop}
    (h : Sat R G Q K p) (hG : ∀ s s', G s s' → G' s s') : Sat R G' Q K p := by
  induction p generalizing K with
  | ret a => exact h
  | throw e => exact h
  | step upd next ih => exact fun s hs => ⟨hG _ _ (h s hs).1, ih s (h s hs).2⟩

/-- Knowledge that neither the others nor the program's own steps invalidate is kept. -/
lemma Sat.carry {Q : Except ε α → (σ → Prop) → Prop} {K T : σ → Prop} (h : Sat R G Q K p)
    (hR : ∀ s s', T s → R s s' → T s') (hG : ∀ s s', T s → G s s' → T s') (hK : ∀ s, K s → T s) :
    Sat R G (fun r K' => Q r K' ∧ ∀ s, K' s → T s) K p := by
  induction p generalizing K with
  | ret a => exact ⟨h, hK⟩
  | throw e => exact ⟨h, hK⟩
  | step upd next ih =>
    intro s hs
    obtain ⟨hstep, hnext⟩ := h s hs
    exact ⟨hstep, ih s hnext fun s' hs' => hR _ _ (hG _ _ (hK s hs) hstep) hs'⟩

/-- A program alone makes a chain of guaranteed steps. -/
theorem Sat.run (hrefl : ∀ s, R s s) {Q : Except ε α → (σ → Prop) → Prop} {K : σ → Prop}
    {p : Prog σ ε α} (h : Sat R G Q K p) {s : σ} (hs : K s) :
    Relation.ReflTransGen G s (p.run s).2 ∧ ∃ K', Q (p.run s).1 K' ∧ K' (p.run s).2 := by
  induction p generalizing K s with
  | ret a => exact ⟨.refl, K, h, hs⟩
  | throw e => exact ⟨.refl, K, h, hs⟩
  | step upd next ih =>
    obtain ⟨hG, hn⟩ := h s hs
    obtain ⟨hchain, hQ⟩ := ih s hn (hrefl _)
    exact ⟨.head hG hchain, hQ⟩

/-- A program alone keeps what each of its steps keeps. -/
lemma Sat.preserves (hrefl : ∀ s, R s s) {Q : Except ε α → (σ → Prop) → Prop} {K I : σ → Prop}
    (h : Sat R G Q K p) (hI : ∀ s s', I s → G s s' → I s') {s : σ} (hs : K s) (hinit : I s) :
    I (p.run s).2 := by
  have hchain := (h.run hrefl hs).1
  generalize (p.run s).2 = s' at hchain
  induction hchain with
  | refl => exact hinit
  | tail _ hstep ih => exact hI _ _ ih hstep

/-! ### Partial correctness -/

/-- `Sat` with nothing asked of exceptions. -/
def Guards (R G : σ → σ → Prop) (K : σ → Prop) (p : Prog σ ε α) (Q : α → (σ → Prop) → Prop) :
    Prop :=
  Sat R G (fun r K' => match r with
    | .ok a => Q a K'
    | .error _ => True) K p

variable {K : σ → Prop}

variable {Q : α → (σ → Prop) → Prop}

lemma guards_ret {a : α} (h : Q a K) : Guards R G K (ret a : Prog σ ε α) Q := h

lemma guards_throw {e : ε} : Guards R G K (throw e : Prog σ ε α) Q := trivial

lemma guards_bind {Q : β → (σ → Prop) → Prop}
    (h : Guards R G K p fun a K' => Guards R G K' (f a) Q) : Guards R G K (p.bind f) Q := by
  refine sat_bind.mpr (Sat.imp h ?_)
  intro r K' hr
  cases r with
  | ok a => exact hr
  | error e => trivial

lemma guards_readE {f : σ → Except ε α} (hG : ∀ s, G s s)
    (h : ∀ s a, K s → f s = .ok a → Q a (R s)) : Guards R G K (readE f) Q := by
  intro s hs
  refine ⟨hG s, ?_⟩
  cases hf : f s with
  | ok a =>
    simp only [hf, Sat]
    exact h s a hs hf
  | error e => simp only [hf, Sat]

lemma guards_ofExcept {x : Except ε α} (h : ∀ a, x = .ok a → Q a K) :
    Guards R G K (ofExcept x) Q := by
  cases x with
  | ok a => exact h a rfl
  | error e => trivial

/-- The program after an exception starts with no knowledge of its own. -/
lemma guards_handle {h : ε → Prog σ ε α} (hp : Guards R G K p Q)
    (hh : ∀ e K', Guards R G K' (h e) Q) : Guards R G K (p.handle h) Q := by
  refine sat_handle.mpr (Sat.imp hp ?_)
  intro r K' hr
  cases r with
  | ok a => exact hr
  | error e => exact hh e K'

lemma guards_forEach {xs : List α} {f : α → Prog σ ε Unit} {I : (σ → Prop) → Prop}
    (hK : I K) (hf : ∀ x ∈ xs, ∀ K', I K' → Guards R G K' (f x) fun _ K'' => I K'') :
    Guards R G K (forEach xs f) fun _ K' => I K' := by
  induction xs generalizing K with
  | nil => exact hK
  | cons x xs ih =>
    refine guards_bind (Sat.imp (hf x (by simp) K hK) ?_)
    intro r K' hr
    cases r with
    | ok u => exact ih hr fun y hy => hf y (by simp [hy])
    | error e => trivial

lemma Guards.mono {Q Q' : α → (σ → Prop) → Prop} {K' : σ → Prop} (h : Guards R G K p Q)
    (hK : ∀ s, K' s → K s) (hQ : ∀ a K₁, Q a K₁ → ∀ K₂ : σ → Prop, (∀ s, K₂ s → K₁ s) → Q' a K₂) :
    Guards R G K' p Q' := by
  refine Sat.mono h hK ?_
  intro r K₁ hr K₂ hK
  cases r with
  | ok a => exact hQ a K₁ hr K₂ hK
  | error e => trivial

lemma Guards.carry {T : σ → Prop} (h : Guards R G K p Q) (hR : ∀ s s', T s → R s s' → T s')
    (hG : ∀ s s', T s → G s s' → T s') (hK : ∀ s, K s → T s) :
    Guards R G K p fun a K' => Q a K' ∧ ∀ s, K' s → T s := by
  refine Sat.imp (Sat.carry h hR hG hK) ?_
  intro r K' hr
  cases r with
  | ok a => exact hr
  | error e => trivial

lemma Guards.imp {Q Q' : α → (σ → Prop) → Prop} (h : Guards R G K p Q)
    (hQ : ∀ a K₁, Q a K₁ → Q' a K₁) : Guards R G K p Q' := by
  refine Sat.imp h ?_
  intro r K' hr
  cases r with
  | ok a => exact hQ a K' hr
  | error e => trivial

/-- A sequence whose second part starts with no knowledge. -/
lemma guards_seq {Q : β → (σ → Prop) → Prop} (hp : Guards R G K p fun _ _ => True)
    (hf : ∀ a K', Guards R G K' (f a) Q) : Guards R G K (p.bind f) Q :=
  guards_bind (hp.imp fun a K' _ => hf a K')

end Sat

/-! ### Programs among others -/

/-- A program is executed while others move the state along `R` before each of its steps and after
the last one. The list holds its own moves, `r` is its outcome. -/
inductive Among (R : σ → σ → Prop) : Prog σ ε α → σ → List (σ × σ) → Except ε α → σ → Prop where
  | ret {a : α} {s s' : σ} : R s s' → Among R (ret a) s [] (.ok a) s'
  | throw {e : ε} {s s' : σ} : R s s' → Among R (throw e) s [] (.error e) s'
  | step {upd : σ → σ} {next : σ → Prog σ ε α} {s t s' : σ} {moves : List (σ × σ)}
      {r : Except ε α} : R s t → Among R (next t) (upd t) moves r s' →
      Among R (step upd next) s ((t, upd t) :: moves) r s'

section Among

variable {R : σ → σ → Prop} {s s' : σ} {moves : List (σ × σ)}

variable {r : Except ε α}

lemma among_ret {a : α} (h : Among R (ret a : Prog σ ε α) s moves r s') :
    moves = [] ∧ r = .ok a ∧ R s s' := by
  cases h with
  | ret hR => exact ⟨rfl, rfl, hR⟩

lemma among_ofExcept {x r : Except ε α} (h : Among R (ofExcept x) s moves r s') :
    moves = [] ∧ r = x ∧ R s s' := by
  cases x with
  | ok a => exact among_ret h
  | error e =>
    cases h with
    | throw hR => exact ⟨rfl, rfl, hR⟩

lemma among_step {upd : σ → σ} {next : σ → Prog σ ε α} (h : Among R (step upd next) s moves r s') :
    ∃ t rest, R s t ∧ moves = (t, upd t) :: rest ∧
      Among R (next t) (upd t) rest r s' := by
  cases h with
  | step hR hnext => exact ⟨_, _, hR, rfl, hnext⟩

lemma among_readE {f : σ → Except ε α} (h : Among R (readE f) s moves r s') :
    ∃ t, R s t ∧ moves = [(t, t)] ∧ r = f t ∧ R t s' := by
  obtain ⟨t, rest, hR, rfl, hnext⟩ := among_step h
  cases hf : f t with
  | ok a =>
    simp only [hf] at hnext
    obtain ⟨rfl, rfl, hend⟩ := among_ret hnext
    exact ⟨t, hR, rfl, hf.symm, hend⟩
  | error e =>
    simp only [hf] at hnext
    obtain ⟨rfl, rfl, hend⟩ := among_ofExcept (x := .error e) hnext
    exact ⟨t, hR, rfl, hf.symm, hend⟩

/-- A sequence among others: its first part raises, or its second part follows. -/
lemma among_bind (hrefl : ∀ s, R s s) {p : Prog σ ε β} {f : β → Prog σ ε α}
    (h : Among R (p.bind f) s moves r s') :
    (∃ e, r = .error e ∧ Among R p s moves (.error e) s') ∨
    ∃ b t first rest, moves = first ++ rest ∧ Among R p s first (.ok b) t ∧
      Among R (f b) t rest r s' := by
  induction p generalizing s moves with
  | ret b => exact Or.inr ⟨b, s, [], moves, rfl, .ret (hrefl s), h⟩
  | throw e =>
    obtain ⟨rfl, rfl, hR⟩ := among_ofExcept (x := .error e) h
    exact Or.inl ⟨e, rfl, .throw hR⟩
  | step upd next ih =>
    obtain ⟨t, rest, hR, rfl, hnext⟩ := among_step h
    rcases ih t hnext with ⟨e, hr, hp⟩ | ⟨b, t', first, rest, rfl, hp, hf⟩
    · exact Or.inl ⟨e, hr, .step hR hp⟩
    · exact Or.inr ⟨b, t', _, rest, rfl, .step hR hp, hf⟩

/-- Moves that change nothing, while others move the state from `s` to `s'`. -/
inductive Silent (R : σ → σ → Prop) : σ → List (σ × σ) → σ → Prop where
  | nil {s s' : σ} : R s s' → Silent R s [] s'
  | cons {s t s' : σ} {moves : List (σ × σ)} : R s t → Silent R t moves s' →
      Silent R s ((t, t) :: moves) s'

namespace Silent

variable (htrans : ∀ s s' s'', R s s' → R s' s'' → R s s'')

include htrans

lemma of_rel {t : σ} (hst : R s t) (h : Silent R t moves s') : Silent R s moves s' := by
  cases h with
  | nil hR => exact .nil (htrans _ _ _ hst hR)
  | cons hR hrest => exact .cons (htrans _ _ _ hst hR) hrest

lemma append {t : σ} {moves' : List (σ × σ)} (h : Silent R s moves t)
    (h' : Silent R t moves' s') : Silent R s (moves ++ moves') s' := by
  induction h with
  | nil hR => exact h'.of_rel htrans hR
  | cons hR _ ih => exact .cons hR (ih h')

lemma to_rel {t : σ} (h : Silent R s moves t) (hts : R t s') : Silent R s moves s' := by
  have happend := h.append htrans (.nil hts)
  rwa [List.append_nil] at happend

/-- Others move the state from the first to the last, also when the moves are silent. -/
lemma rel (h : Silent R s moves s') : R s s' := by
  induction h with
  | nil hR => exact hR
  | cons hR _ ih => exact htrans _ _ _ hR ih

lemma mem (h : Silent R s moves s') {move : σ × σ} (hmove : move ∈ moves) :
    move.2 = move.1 ∧ R s move.1 ∧ R move.1 s' := by
  induction h with
  | nil hR => cases hmove
  | cons hR hrest ih =>
    rcases List.mem_cons.mp hmove with rfl | hmove
    · exact ⟨rfl, hR, hrest.rel htrans⟩
    · obtain ⟨hsame, hbefore, hafter⟩ := ih hmove
      exact ⟨hsame, htrans _ _ _ hR hbefore, hafter⟩

omit htrans in
lemma init {pre : List (σ × σ)} {move : σ × σ} (h : Silent R s (pre ++ [move]) s') :
    Silent R s pre move.1 := by
  induction pre generalizing s with
  | nil =>
    cases h with
    | cons hR _ => exact .nil hR
  | cons first pre ih =>
    cases h with
    | cons hR hrest => exact .cons hR (ih hrest)

end Silent

lemma among_readE_silent {f : σ → Except ε α} (h : Among R (readE f) s moves r s') :
    ∃ t, moves = [(t, t)] ∧ r = f t ∧ Silent R s moves s' := by
  obtain ⟨t, hst, rfl, hr, hend⟩ := among_readE h
  exact ⟨t, rfl, hr, .cons hst (.nil hend)⟩

end Among

/-- The first steps of a program alone, and what is left of it. -/
def advance : Nat → Prog σ ε α → σ → Prog σ ε α × σ
  | n + 1, step upd next, s => advance n (next s) (upd s)
  | _, p, s => (p, s)

lemma advance_zero (p : Prog σ ε α) (s : σ) : advance 0 p s = (p, s) := by
  cases p <;> rfl

lemma advance_readE_bind {f : σ → Except ε β} {g : β → Prog σ ε α} {s : σ} {b : β}
    (h : f s = .ok b) (n : Nat) : advance (n + 1) ((readE f).bind g) s = advance n (g b) s := by
  rw [readE, step_bind, advance, h]
  rfl

/-- The moves of a program alone. -/
def trace : Prog σ ε α → σ → List (σ × σ)
  | step upd next, s => (s, upd s) :: (next s).trace (upd s)
  | _, _ => []

variable {R : σ → σ → Prop}

/-- A program alone is a program among others that do nothing. -/
lemma among_run (hrefl : ∀ s, R s s) (p : Prog σ ε α) (s : σ) :
    Among R p s (p.trace s) (p.run s).1 (p.run s).2 := by
  induction p generalizing s with
  | ret a => exact .ret (hrefl s)
  | throw e => exact .throw (hrefl s)
  | step upd next ih => exact .step (hrefl s) (ih s (upd s))

lemma Among.weaken (htrans : ∀ s s' s'', R s s' → R s' s'' → R s s'') {p : Prog σ ε α}
    {s t s' : σ} {moves : List (σ × σ)} {r : Except ε α} (hst : R s t)
    (h : Among R p t moves r s') : Among R p s moves r s' := by
  cases h with
  | ret hR => exact .ret (htrans _ _ _ hst hR)
  | throw hR => exact .throw (htrans _ _ _ hst hR)
  | step hR hnext => exact .step (htrans _ _ _ hst hR) hnext

/-- A program that is interrupted once by others. -/
lemma among_interrupted (hrefl : ∀ s, R s s) (htrans : ∀ s s' s'', R s s' → R s' s'' → R s s'')
    (n : Nat) {p : Prog σ ε α} {s t : σ} (h : R (advance n p s).2 t) : Among R p s
      ((p.trace s).take n ++ (advance n p s).1.trace t)
      ((advance n p s).1.run t).1 ((advance n p s).1.run t).2 := by
  induction n generalizing p s with
  | zero => exact (among_run hrefl p t).weaken htrans h
  | succ n ih =>
    cases p with
    | ret a => exact .ret h
    | throw e => exact .throw h
    | step upd next => exact .step (hrefl s) (ih h)

/-- What others do and what the moves of a program do lead from its first state to its last. -/
lemma Among.chain {R E : σ → σ → Prop} (htrans : ∀ s s' s'', E s s' → E s' s'' → E s s'')
    (hR : ∀ s s', R s s' → E s s') {p : Prog σ ε α} {s s' : σ} {moves : List (σ × σ)}
    {r : Except ε α} (h : Among R p s moves r s') (hmoves : ∀ move ∈ moves, E move.1 move.2) :
    E s s' := by
  induction h with
  | ret h => exact hR _ _ h
  | throw h => exact hR _ _ h
  | @step upd next s t s' moves r hst _ ih =>
    refine htrans _ _ _ (hR _ _ hst) (htrans _ _ _ (hmoves (t, upd t) (by simp)) ?_)
    exact ih fun move hmove => hmoves move (by simp [hmove])

end Prog

/-! ### Pools of programs -/

/-- A state shared by the programs that have been started; each carries the call it came from. -/
structure Pool (σ ε ι : Type) where
  state : σ
  threads : List (ι × Prog σ ε Unit)

/-- One step of a pool, with the call that made it: a call is started, or a started program makes
its next atomic step. -/
inductive Pool.Step {σ ε ι : Type} (start : ι → Prog σ ε Unit) :
    Pool σ ε ι → ι → Pool σ ε ι → Prop where
  | spawn (P : Pool σ ε ι) (i : ι) :
      Pool.Step start P i { P with threads := P.threads ++ [(i, start i)] }
  | atom (s : σ) (before after : List (ι × Prog σ ε Unit)) (i : ι) (upd : σ → σ)
      (next : σ → Prog σ ε Unit) :
      Pool.Step start ⟨s, before ++ (i, .step upd next) :: after⟩ i
        ⟨upd s, before ++ (i, next s) :: after⟩

/-- A run of a pool: the calls that stepped, each with the states before and after its step. -/
inductive Pool.Run {σ ε ι : Type} (start : ι → Prog σ ε Unit) (P₀ : Pool σ ε ι) :
    List (ι × σ × σ) → Pool σ ε ι → Prop where
  | nil : Pool.Run start P₀ [] P₀
  | snoc {tr : List (ι × σ × σ)} {P P' : Pool σ ε ι} {i : ι} :
      Pool.Run start P₀ tr P → Pool.Step start P i P' →
      Pool.Run start P₀ (tr ++ [(i, P.state, P'.state)]) P'

namespace Pool

variable {σ ε ι : Type} {start : ι → Prog σ ε Unit} {R : σ → σ → Prop} {G : ι → σ → σ → Prop}

/-- What a pool keeps: every started program guarantees its steps, from a knowledge that the
steps of the others do not invalidate. -/
def Guarded (R : σ → σ → Prop) (G : ι → σ → σ → Prop) (P : Pool σ ε ι) : Prop :=
  ∀ t ∈ P.threads, ∃ K : σ → Prop, K P.state ∧ Prog.Stable R K ∧
    Prog.Sat R (G t.1) (fun _ _ => True) K t.2

lemma Guarded.step (hrefl : ∀ s, R s s) (htrans : ∀ s s' s'', R s s' → R s' s'' → R s s'')
    (hGR : ∀ i s s', G i s s' → R s s') {i : ι} {P P' : Pool σ ε ι}
    (hstart : Prog.Sat R (G i) (fun _ _ => True) (R P.state) (start i))
    (hP : Guarded R G P) (h : Step start P i P') :
    Guarded R G P' ∧ (P'.state = P.state ∨ G i P.state P'.state) := by
  cases h with
  | spawn =>
    refine ⟨fun t ht => ?_, Or.inl rfl⟩
    rcases List.mem_append.mp ht with ht | ht
    · exact hP t ht
    · obtain rfl := List.mem_singleton.mp ht
      exact ⟨R P.state, hrefl _, fun s s' hs hR => htrans _ _ _ hs hR, hstart⟩
  | atom s before after _ upd next =>
    obtain ⟨K, hK, -, hsat⟩ := hP (i, .step upd next) (by simp)
    obtain ⟨hG, hnext⟩ := hsat s hK
    refine ⟨fun t ht => ?_, Or.inr hG⟩
    simp only [List.mem_append, List.mem_cons] at ht
    have hother : t ∈ before ∨ t ∈ after → ∃ K : σ → Prop, K (upd s) ∧
        Prog.Stable R K ∧ Prog.Sat R (G t.1) (fun _ _ => True) K t.2 := by
      intro hmem
      obtain ⟨K', hK', hst, hs'⟩ := hP t (by
        rcases hmem with h | h <;> simp [h])
      exact ⟨K', hst _ _ hK' (hGR _ _ _ hG), hst, hs'⟩
    rcases ht with ht | rfl | ht
    · exact hother (Or.inl ht)
    · exact ⟨R (upd s), hrefl _, fun s s' hs hR => htrans _ _ _ hs hR, hnext⟩
    · exact hother (Or.inr ht)

/-- Every step of a run that starts without programs is a guaranteed step of its call, when the
calls of the run, and the states in which they are made, are those that `ok` admits. -/
theorem Run.guaranteed {ok : ι → σ → Prop} (hrefl : ∀ s, R s s)
    (htrans : ∀ s s' s'', R s s' → R s' s'' → R s s'') (hGR : ∀ i s s', G i s s' → R s s')
    (hstart : ∀ i s, ok i s → Prog.Sat R (G i) (fun _ _ => True) (R s) (start i))
    {s₀ : σ} {tr : List (ι × σ × σ)} {P : Pool σ ε ι} (h : Run start ⟨s₀, []⟩ tr P)
    (hok : ∀ e ∈ tr, ok e.1 e.2.1) :
    Guarded R G P ∧ ∀ e ∈ tr, e.2.2 = e.2.1 ∨ G e.1 e.2.1 e.2.2 := by
  induction h with
  | nil => exact ⟨by simp [Guarded], by simp⟩
  | @snoc tr P P' i _ hstep ih =>
    have ih := ih fun e he => hok e (List.mem_append_left _ he)
    have hi : ok i P.state := hok (i, P.state, P'.state) (by simp)
    obtain ⟨hguard, hG⟩ := ih.1.step hrefl htrans hGR (hstart i _ hi) hstep
    refine ⟨hguard, fun e he => ?_⟩
    rcases List.mem_append.mp he with he | he
    · exact ih.2 e he
    · obtain rfl := List.mem_singleton.mp he
      exact hG

variable {tr : List (ι × σ × σ)} {P₀ P : Pool σ ε ι}

/-- The steps of a run lead from its first state to its last. -/
lemma Run.chain {E : σ → σ → Prop} (hrefl : ∀ s, E s s)
    (htrans : ∀ s s' s'', E s s' → E s' s'' → E s s'') (h : Run start P₀ tr P)
    (hE : ∀ e ∈ tr, E e.2.1 e.2.2) : E P₀.state P.state := by
  induction h with
  | nil => exact hrefl _
  | @snoc tr P P' i _ _ ih =>
    refine htrans _ _ _ (ih fun e he => hE e (List.mem_append_left _ he)) ?_
    exact hE (i, P.state, P'.state) (by simp)

/-- What every step of a run preserves holds before and after each of them. -/
lemma Run.invariant {I : σ → Prop} (h : Run start P₀ tr P) (hinit : I P₀.state)
    (hI : ∀ e ∈ tr, I e.2.1 → I e.2.2) : I P.state ∧ ∀ e ∈ tr, I e.2.1 ∧ I e.2.2 := by
  induction h with
  | nil => exact ⟨hinit, by simp⟩
  | @snoc tr P P' i _ _ ih =>
    obtain ⟨hP, htr⟩ := ih fun e he => hI e (List.mem_append_left _ he)
    have hP' : I P'.state := hI (i, P.state, P'.state) (by simp) hP
    refine ⟨hP', fun e he => ?_⟩
    rcases List.mem_append.mp he with he | he
    · exact htr e he
    · obtain rfl := List.mem_singleton.mp he
      exact ⟨hP, hP'⟩

/-- What every step of a run preserves together with the steps so far holds at its end. -/
lemma Run.trace_induction {I : List (ι × σ × σ) → σ → Prop} (h : Run start P₀ tr P)
    (hinit : I [] P₀.state) (hI : ∀ done, ∀ e ∈ tr, I done e.2.1 → I (done ++ [e]) e.2.2) :
    I tr P.state := by
  induction h with
  | nil => exact hinit
  | @snoc tr P P' i _ _ ih =>
    exact hI tr (i, P.state, P'.state) (by simp)
      (ih fun done e he => hI done e (List.mem_append_left _ he))

/-- A run may be continued. -/
lemma Run.append {P₀ P P' : Pool σ ε ι} {tr tr' : List (ι × σ × σ)} (h : Run start P₀ tr P)
    (h' : Run start P tr' P') : Run start P₀ (tr ++ tr') P' := by
  induction h' with
  | nil => simpa using h
  | snoc _ hstep ih =>
    rw [← List.append_assoc]
    exact .snoc ih hstep

/-- A program at the end of a pool can be run to its end. -/
lemma Run.alone (start : ι → Prog σ ε Unit) (before : List (ι × Prog σ ε Unit)) (i : ι)
    (p : Prog σ ε Unit) (s : σ) :
    ∃ tr P, Run start ⟨s, before ++ [(i, p)]⟩ tr P ∧ P.state = (p.run s).2 ∧
      ∀ e ∈ tr, e.1 = i := by
  induction p generalizing s with
  | ret a => exact ⟨[], _, .nil, rfl, by simp⟩
  | throw e => exact ⟨[], _, .nil, rfl, by simp⟩
  | step upd next ih =>
    obtain ⟨tr, P, hrun, hstate, htr⟩ := ih s (upd s)
    have hstep : Step start ⟨s, before ++ [(i, .step upd next)]⟩ i
        ⟨upd s, before ++ [(i, next s)]⟩ := .atom s before [] i upd next
    refine ⟨_, P, Run.append (.snoc .nil hstep) hrun, hstate, fun e he => ?_⟩
    rcases List.mem_append.mp he with he | he
    · simp only [List.nil_append, List.mem_singleton] at he
      rw [he]
    · exact htr e he

/-- The state after calls that are made one after the other. -/
def execute (start : ι → Prog σ ε Unit) (calls : List ι) (s : σ) : σ :=
  calls.foldl (fun s i => ((start i).run s).2) s

/-- Each of the calls that are made one after the other is admitted in the state it is made in. -/
def Each (start : ι → Prog σ ε Unit) (ok : ι → σ → Prop) : List ι → σ → Prop
  | [], _ => True
  | i :: calls, s => ok i s ∧ Each start ok calls ((start i).run s).2

/-- What every admitted call keeps holds after all of them. -/
theorem execute_invariant {ok : ι → σ → Prop} {I : σ → Prop}
    (hI : ∀ i s, ok i s → I s → I ((start i).run s).2) {calls : List ι} {s : σ}
    (h : Each start ok calls s) (hinit : I s) : I (execute start calls s) := by
  induction calls generalizing s with
  | nil => exact hinit
  | cons i calls ih => exact ih h.2 (hI i s h.1 hinit)

/-- What every turn of a loop keeps holds after the loop, also when a turn raises. -/
lemma forEach_invariant {ok : ι → σ → Prop} {I : σ → Prop} {items : List ι} {s : σ}
    (hI : ∀ i ∈ items, ∀ s, ok i s → I s → I ((start i).run s).2)
    (h : Each start ok items s) (hinit : I s) : I ((Prog.forEach items start).run s).2 := by
  induction items generalizing s with
  | nil => exact hinit
  | cons i items ih =>
    have hturn := hI i List.mem_cons_self s h.1 hinit
    have hrest := h.2
    rw [Prog.forEach, Prog.run_bind]
    generalize (start i).run s = after at hturn hrest ⊢
    obtain ⟨r, s'⟩ := after
    cases r with
    | ok _ => exact ih (fun j hj => hI j (List.mem_cons_of_mem i hj)) hrest hturn
    | error e => exact hturn

/-- Calls made one after the other are a run. -/
lemma Run.execute (start : ι → Prog σ ε Unit) (calls : List ι) (P₀ : Pool σ ε ι) :
    ∃ tr P, Run start P₀ tr P ∧ P.state = Pool.execute start calls P₀.state ∧
      ∀ e ∈ tr, e.1 ∈ calls := by
  induction calls generalizing P₀ with
  | nil => exact ⟨[], P₀, .nil, rfl, by simp⟩
  | cons i calls ih =>
    obtain ⟨tr, P, hrun, hstate, htr⟩ :=
      Run.alone start P₀.threads i (start i) P₀.state
    obtain ⟨tr', P', hrun', hstate', htr'⟩ := ih P
    refine ⟨_, P', ((Run.nil.snoc (.spawn P₀ i)).append hrun).append hrun', ?_, fun e he => ?_⟩
    · rw [hstate', hstate]
      rfl
    · rcases List.mem_append.mp he with he | he
      · rcases List.mem_append.mp he with he | he
        · simp only [List.nil_append, List.mem_singleton] at he
          simp [he]
        · simp [htr e he]
      · simp [htr' e he]

end Pool

end Codey
