/-
  OpenGpos.Lib.Streams — a table of open streams, each a list split where its reader
  stands. An event is a call on the table with its answer; `names` says which contents a
  name may open.

  Rules: what a slot received since it was opened is a prefix of a named content
  (`run_prefix`), and a slot is opened again only after it was closed
  (`reopened_after_close`).
-/
import Mathlib
import OpenGpos.Lib.Runs

namespace OpenGpos.Lib.Streams

open OpenGpos.Lib.Runs

variable {ι ν α : Type}

structure Stream (α : Type) where
  delivered : List α
  rest : List α

def Stream.content (s : Stream α) : List α := s.delivered ++ s.rest

def Stream.take (s : Stream α) (n : Nat) : Stream α := ⟨s.delivered ++ s.rest.take n, s.rest.drop n⟩

@[simp] theorem Stream.take_content (s : Stream α) (n : Nat) : (s.take n).content = s.content := by
  simp [Stream.take, Stream.content]

abbrev Table (ι α : Type) := ι → Option (Stream α)

/-- `refused` is a call that is turned down, for a slot that is not open or for no slot. -/
inductive Event (ι ν α : Type) where
  | opened (name : ν) (slot : Option ι)
  | read (slot : ι) (n : Nat) (data : List α)
  | closed (slot : ι)
  | refused (slot : Option ι)

/-- The data that the reads of slot `i` gave, in order. -/
def received [DecidableEq ι] (i : ι) : List (Event ι ν α) → List α
  | [] => []
  | .read j _ data :: es => if j = i then data ++ received i es else received i es
  | _ :: es => received i es

/-- Slot `i` is neither opened nor closed. -/
def Stays (i : ι) (es : List (Event ι ν α)) : Prop := ∀ e ∈ es, e ≠ .closed i ∧ ∀ name, e ≠ .opened name (some i)

theorem Stays.cons {i : ι} {es : List (Event ι ν α)} {e : Event ι ν α} (h : Stays i es)
    (hc : e ≠ .closed i) (ho : ∀ name, e ≠ .opened name (some i)) : Stays i (e :: es) := by
  intro e' he'
  rcases List.mem_cons.mp he' with rfl | he'
  · exact ⟨hc, ho⟩
  · exact h e' he'

section
variable [DecidableEq ι]

inductive Step (names : ν → List α → Prop) : Table ι α → Event ι ν α → Table ι α → Prop
  | opened {t : Table ι α} {name : ν} {content : List α} {i : ι} : t i = none → names name content →
      Step names t (.opened name (some i)) (Function.update t i (some ⟨[], content⟩))
  | notOpened {t : Table ι α} {name : ν} : Step names t (.opened name none) t
  | read {t : Table ι α} {i : ι} {n : Nat} {s : Stream α} : t i = some s →
      Step names t (.read i n (s.rest.take n)) (Function.update t i (some (s.take n)))
  | closed {t : Table ι α} {i : ι} : Step names t (.closed i) (Function.update t i none)
  | refused {t : Table ι α} {slot : Option ι} : (∀ i, slot = some i → t i = none) → Step names t (.refused slot) t

variable {names : ν → List α → Prop} {t t' : Table ι α} {es : List (Event ι ν α)}

theorem update_some {i j : ι} {s : Stream α} {o : Option (Stream α)} (h : Function.update t i o j = some s) :
    (j = i ∧ o = some s) ∨ (j ≠ i ∧ t j = some s) := by
  by_cases hj : j = i
  · subst hj
    rw [Function.update_self] at h
    exact Or.inl ⟨rfl, h⟩
  · rw [Function.update_of_ne hj] at h
    exact Or.inr ⟨hj, h⟩

/-- Where the stream of slot `i` comes from: the last opening, or the state before. -/
inductive Since (names : ν → List α → Prop) (t : Table ι α) (i : ι) (s : Stream α) (es : List (Event ι ν α)) : Prop
  | opening {a b : List (Event ι ν α)} {name : ν} : es = a ++ .opened name (some i) :: b → Stays i b →
      names name s.content → received i b = s.delivered → Since names t i s es
  | before {s0 : Stream α} : t i = some s0 → Stays i es → s0.delivered ++ received i es = s.delivered →
      s0.content = s.content → Since names t i s es

theorem run_since (h : Run (Step names) t es t') (i : ι) {s : Stream α} (hs : t' i = some s) : Since names t i s es := by
  induction h with
  | nil => exact .before hs (fun _ h => by cases h) (by simp [received]) rfl
  | cons hst _ ih =>
    cases ih hs with
    | @opening a _ _ he hb hn hr => exact .opening (a := _ :: a) (by rw [he]; rfl) hb hn hr
    | @before s0 h0 hq hr hc =>
      cases hst with
      | @opened name content j _ hn =>
        rcases update_some h0 with ⟨rfl, e⟩ | ⟨hj, h0⟩
        · cases e
          exact .opening (a := []) rfl hq (hc ▸ hn) (by simpa using hr)
        · exact .before h0 (hq.cons (fun h => by cases h) fun _ h => by cases h; exact hj rfl) hr hc
      | notOpened => exact .before h0 (hq.cons (fun h => by cases h) fun _ h => by cases h) hr hc
      | @read j n r hr0 =>
        rcases update_some h0 with ⟨rfl, e⟩ | ⟨hj, h0⟩
        · cases e
          refine .before hr0 (hq.cons (fun h => by cases h) fun _ h => by cases h) ?_ (by rw [← hc]; simp)
          rw [← hr]; simp [received, Stream.take]
        · refine .before h0 (hq.cons (fun h => by cases h) fun _ h => by cases h) ?_ hc
          simpa [received, Ne.symm hj] using hr
      | @closed j =>
        rcases update_some h0 with ⟨-, e⟩ | ⟨hj, h0⟩
        · cases e
        · exact .before h0 (hq.cons (fun h => by cases h; exact hj rfl) fun _ h => by cases h) hr hc
      | refused _ => exact .before h0 (hq.cons (fun h => by cases h) fun _ h => by cases h) hr hc

/-- From the empty table on, an open slot received a prefix of what its name opens, since it
    was opened by that name. -/
theorem run_prefix {i : ι} {s : Stream α} (h : Run (Step names) (fun _ => none) es t) (hs : t i = some s) :
    ∃ a b name, es = a ++ .opened name (some i) :: b ∧ Stays i b ∧ names name (received i b ++ s.rest) := by
  cases run_since h i hs with
  | @opening a b name he hb hn hr => exact ⟨a, b, name, he, hb, by rw [hr]; exact hn⟩
  | before h0 => cases h0

/-- A step that empties a slot closes it. -/
theorem step_closed {i : ι} {e : Event ι ν α} (h : Step names t e t') (hi : t i ≠ none) (hi' : t' i = none) :
    e = .closed i := by
  have emptied : ∀ {j : ι} {o : Option (Stream α)}, Function.update t j o i = none → i = j ∧ o = none := by
    intro j o h
    by_cases hj : i = j
    · subst hj; rw [Function.update_self] at h; exact ⟨rfl, h⟩
    · rw [Function.update_of_ne hj] at h; exact absurd h hi
  cases h with
  | opened => cases (emptied hi').2
  | notOpened => exact absurd hi' hi
  | read => cases (emptied hi').2
  | closed => rw [(emptied hi').1]
  | refused _ => exact absurd hi' hi

/-- A slot that was emptied was closed. -/
theorem run_closed {i : ι} (h : Run (Step names) t es t') (hi : t i ≠ none) (hi' : t' i = none) : .closed i ∈ es := by
  induction h with
  | nil => exact absurd hi' hi
  | @cons _ t1 _ _ _ hs _ ih =>
    by_cases h1 : t1 i = none
    · rw [step_closed hs hi h1]; exact List.mem_cons_self
    · exact List.mem_cons_of_mem _ (ih h1 hi')

/-- Between two openings of a slot it was closed. -/
theorem reopened_after_close {a b c : List (Event ι ν α)} {name name' : ν} {i : ι}
    (h : Run (Step names) t (a ++ .opened name (some i) :: (b ++ .opened name' (some i) :: c)) t') : .closed i ∈ b := by
  obtain ⟨t1, -, h1⟩ := h.split
  cases h1 with
  | @cons _ t2 _ _ _ hs hr =>
    obtain ⟨t3, hb, h3⟩ := hr.split
    have h2 : t2 i ≠ none := by cases hs; simp
    have h3' : t3 i = none := by
      cases h3 with
      | cons hs' _ => cases hs'; assumption
    exact run_closed hb h2 h3'

end

end OpenGpos.Lib.Streams
