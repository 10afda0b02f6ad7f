import Mathlib.Data.List.Basic

/-!
# Checks that raise

Lemmas that take a successful `Except` computation apart, so that what a validator has checked
can be read off its success.
-/

namespace Codey

variable {ε α β : Type}

/-- Go on when the condition holds, raise otherwise. -/
def require (cond : Bool) (e : ε) : Except ε Unit := if cond then .ok () else .error e

@[simp] lemma require_eq_ok {cond : Bool} {e : ε} {u : Unit} :
    require cond e = .ok u ↔ cond = true := by
  unfold require
  split_ifs with h <;> simp [h]

@[simp] lemma require_true (e : ε) : require true e = .ok () := rfl

@[simp] lemma require_false (e : ε) : (require false e : Except ε Unit) = .error e := rfl

variable {x : Except ε α}

lemma except_bind_eq_ok {f : α → Except ε β} {b : β} :
    x >>= f = .ok b ↔ ∃ a, x = .ok a ∧ f a = .ok b := by
  cases x <;> simp [bind, Except.bind]

/-- The last step of a check. -/
lemma except_last_eq_ok {f : α → β} {b : β} :
    (x >>= fun a => .ok (f a)) = .ok b ↔ ∃ a, x = .ok a ∧ f a = b := by
  cases x <;> simp [bind, Except.bind]

lemma except_bind_eq_error {f : α → Except ε β} {e : ε} :
    x >>= f = .error e ↔ x = .error e ∨ ∃ a, x = .ok a ∧ f a = .error e := by
  cases x <;> simp [bind, Except.bind]

lemma except_seq_eq_ok {x : Except ε Unit} {y : Except ε β} {b : β} :
    (x >>= fun _ => y) = .ok b ↔ x = .ok () ∧ y = .ok b := by
  cases x <;> simp [bind, Except.bind]

lemma except_map_eq_ok {f : α → β} {b : β} : x.map f = .ok b ↔ ∃ a, x = .ok a ∧ f a = b := by
  cases x <;> simp [Except.map]

lemma except_map_eq_error {f : α → β} {e : ε} : x.map f = .error e ↔ x = .error e := by
  cases x <;> simp [Except.map]

lemma toOption_eq_some {a : α} : x.toOption = some a ↔ x = .ok a := by
  cases x <;> simp [Except.toOption]

/-- What a computation without an error returns. -/
lemma ok_of_isSome (h : x.toOption.isSome = true) : ∃ a, x = .ok a := by
  cases x with
  | error e => cases h
  | ok a => exact ⟨a, rfl⟩

/-- Raise the first error among the items of a list. -/
def checkAll (xs : List α) (f : α → Except ε Unit) : Except ε Unit :=
  match xs with
  | [] => .ok ()
  | x :: xs => f x >>= fun _ => checkAll xs f

variable {xs : List α}

@[simp] lemma checkAll_eq_ok {f : α → Except ε Unit} {u : Unit} :
    checkAll xs f = .ok u ↔ ∀ x ∈ xs, f x = .ok () := by
  induction xs with
  | nil => simp [checkAll]
  | cons x xs ih => simp [checkAll, except_seq_eq_ok, ih]

/-- Thread a state through a list of writes, any of which may raise. -/
def foldE (xs : List α) (f : β → α → Except ε β) (b : β) : Except ε β :=
  match xs with
  | [] => .ok b
  | x :: xs => f b x >>= foldE xs f

@[simp] lemma foldE_nil (f : β → α → Except ε β) (b : β) : foldE [] f b = .ok b := rfl

variable {f : β → α → Except ε β}

lemma foldE_cons_eq_ok {x : α} {b c : β} :
    foldE (x :: xs) f b = .ok c ↔ ∃ b', f b x = .ok b' ∧ foldE xs f b' = .ok c :=
  except_bind_eq_ok

lemma foldE_append (xs ys : List α) (f : β → α → Except ε β) (b : β) :
    foldE (xs ++ ys) f b = foldE xs f b >>= foldE ys f := by
  induction xs generalizing b with
  | nil => rfl
  | cons x xs ih =>
    simp only [List.cons_append, foldE]
    cases f b x with
    | error e => rfl
    | ok b' => exact ih b'

/-- What every successful write keeps, a successful list of writes keeps. -/
lemma foldE_induction {b c : β} (P : β → Prop) (h : foldE xs f b = .ok c) (hb : P b)
    (hstep : ∀ x ∈ xs, ∀ b b', P b → f b x = .ok b' → P b') : P c := by
  induction xs generalizing b with
  | nil =>
    obtain rfl := Except.ok.inj h
    exact hb
  | cons x xs ih =>
    obtain ⟨b', hb', hc⟩ := foldE_cons_eq_ok.mp h
    exact ih hc (hstep x (by simp) b b' hb hb') fun y hy => hstep y (by simp [hy])

/-- A fact about the items that were written already, carried through a list of writes. -/
lemma foldE_prefix {b c : β} (P : List α → β → Prop)
    (h : foldE xs f b = .ok c) (hb : P [] b)
    (hstep : ∀ done x todo, xs = done ++ x :: todo → ∀ b b', P done b → f b x = .ok b' →
      P (done ++ [x]) b') : P xs c := by
  suffices ∀ done todo b, xs = done ++ todo → P done b → foldE todo f b = .ok c → P xs c from
    this [] xs b rfl hb h
  intro done todo
  induction todo generalizing done with
  | nil =>
    intro b heq hP h
    obtain rfl := Except.ok.inj h
    rwa [heq, List.append_nil]
  | cons x todo ih =>
    intro b heq hP h
    obtain ⟨b', hb', hc⟩ := foldE_cons_eq_ok.mp h
    exact ih (done ++ [x]) b' (by simp [heq]) (hstep done x todo heq b b' hP hb') hc

/-- The items of a list that pass a test that may raise. -/
def filterE (p : α → Except ε Bool) : List α → Except ε (List α)
  | [] => .ok []
  | x :: xs => p x >>= fun kept => filterE p xs >>= fun rest =>
      .ok (if kept then x :: rest else rest)

/-- Without an error, a filter that may raise is a filter. -/
lemma filterE_eq_ok {p : α → Except ε Bool} {q : α → Bool} (h : ∀ x ∈ xs, p x = .ok (q x)) :
    filterE p xs = .ok (xs.filter q) := by
  induction xs with
  | nil => rfl
  | cons x xs ih =>
    rw [filterE, h x (by simp), ih fun y hy => h y (by simp [hy]), List.filter_cons]
    rfl

/-- Every item of a list is admissible when its turn comes. -/
def FoldOk (ok : β → α → Prop) (g : β → α → β) : β → List α → Prop
  | _, [] => True
  | b, x :: xs => ok b x ∧ FoldOk ok g (g b x) xs

/-- A list of writes succeeds when each write is admissible in its turn, and then it computes the
composition of what the writes compute. -/
lemma foldE_eq_ok_iff {ok : β → α → Prop} {g : β → α → β}
    (hf : ∀ b x b', f b x = .ok b' ↔ ok b x ∧ b' = g b x) {b c : β} :
    foldE xs f b = .ok c ↔ FoldOk ok g b xs ∧ c = xs.foldl g b := by
  induction xs generalizing b with
  | nil => simp [FoldOk, eq_comm]
  | cons x xs ih =>
    simp only [foldE_cons_eq_ok, hf, FoldOk, List.foldl_cons]
    constructor
    · rintro ⟨b', ⟨hok, rfl⟩, hc⟩
      exact ⟨⟨hok, (ih.mp hc).1⟩, (ih.mp hc).2⟩
    · rintro ⟨⟨hok, hrest⟩, hc⟩
      exact ⟨g b x, ⟨hok, rfl⟩, ih.mpr ⟨hrest, hc⟩⟩

end Codey
