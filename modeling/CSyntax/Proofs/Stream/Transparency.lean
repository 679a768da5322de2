import CSyntax.Lookahead
import Mathlib.Data.List.Basic

/-!
# Transparency — a queue that cannot be seen

A lookahead queues outcomes of its source, ends among them, to whatever depth it has been looked
into.  What comes out of it does not tell: the queue and, behind it, what the source has still to
give are always the outcomes that have not been taken.  This file defines:

* `Lookahead.outcome` — what the pulls of a source give, one after the other;
* `Lookahead.coming` — the outcomes ahead, from the queue and from the source;
* `Lookahead.Call.answer` — what a call answers, told from the outcomes ahead alone;

and shows what every operation does to the outcomes ahead, and that any calls, one after the other,
answer as if there were no queue (`Lookahead.run_transparent`).
-/

namespace CSyntax
namespace Lookahead

variable {σ α : Type}

/-! ## Outcomes -/

/-- The outcome of the pull behind the next `k` ones. -/
def outcome (pull : σ → Option α × σ) : (source : σ) → (k : Nat) → Option α
  | source, 0 => (pull source).1
  | source, k + 1 => outcome pull (pull source).2 k

/-- The outcome behind the next `n` ones: one that waits in the queue, or one that the source has
still to give. -/
def coming (l : Lookahead σ α) (n : Nat) : Option α :=
  l.queue[n]?.getD (outcome l.pull l.source (n - l.queue.length))

@[simp] theorem coming_ofSource (pull : σ → Option α × σ) (source : σ) :
    (ofSource pull source).coming = outcome pull source := by
  funext n
  simp [coming, ofSource]

/-! ## Looking ahead -/

/-- An outcome that is pulled waits where it would have come. -/
theorem coming_pull (l : Lookahead σ α) :
    coming { l with source := (l.pull l.source).2, queue := l.queue ++ [(l.pull l.source).1] } =
      l.coming := by
  funext n
  unfold coming
  rcases Nat.lt_trichotomy n l.queue.length with hlt | rfl | hgt
  · rw [List.getElem?_append_left hlt, List.getElem?_eq_getElem hlt]
    rfl
  · simp [outcome]
  · obtain ⟨k, rfl⟩ : ∃ k, n = l.queue.length + (k + 1) := ⟨n - l.queue.length - 1, by omega⟩
    have hrest : l.queue.length + (k + 1) - (l.queue.length + 1) = k := by omega
    simp [hrest, outcome]

@[simp] theorem coming_fill (k : Nat) (l : Lookahead σ α) : (l.fill k).coming = l.coming := by
  induction k generalizing l with
  | zero => rfl
  | succ k ih => rw [fill, ih, coming_pull]

theorem length_queue_fill (k : Nat) (l : Lookahead σ α) :
    (l.fill k).queue.length = l.queue.length + k := by
  induction k generalizing l with
  | zero => rfl
  | succ k ih =>
      rw [fill, ih, List.length_append, List.length_singleton]
      omega

@[simp] theorem coming_peek (n : Nat) (l : Lookahead σ α) : (l.peek n).2.coming = l.coming :=
  coming_fill _ l

/-- The queue is filled as far as it is looked into, so what is found there is what comes. -/
theorem peek_fst (n : Nat) (l : Lookahead σ α) : (l.peek n).1 = l.coming n := by
  have hroom : n < (l.fill (n + 1 - l.queue.length)).queue.length := by
    rw [length_queue_fill]
    omega
  rw [peek, ← coming_fill (n + 1 - l.queue.length) l, coming, List.getElem?_eq_getElem hroom]
  rfl

variable [BEq α]

@[simp] theorem coming_startsWithAt (n : Nat) (items : List α) (l : Lookahead σ α) :
    (l.startsWithAt n items).2.coming = l.coming := by
  induction items generalizing n l with
  | nil => rfl
  | cons x xs ih =>
      rw [startsWithAt]
      dsimp only
      split
      · exact (ih _ _).trans (coming_peek n l)
      · exact coming_peek n l

/-- An item that is missing equals none of the items looked for, so the end of the source is no
match. -/
theorem startsWithAt_fst (n : Nat) (items : List α) (l : Lookahead σ α) :
    (l.startsWithAt n items).1 = true ↔
      ∀ i : Fin items.length, l.coming (n + i) == some items[i] := by
  induction items generalizing n l with
  | nil => exact ⟨fun _ => nofun, fun _ => rfl⟩
  | cons x xs ih =>
      have hall : (∀ i : Fin (x :: xs).length, l.coming (n + i) == some (x :: xs)[i]) ↔
          l.coming n == some x ∧ ∀ i : Fin xs.length, l.coming (n + 1 + i) == some xs[i] := by
        refine Fin.forall_fin_succ.trans (and_congr_right fun _ => forall_congr' fun i => ?_)
        rw [Nat.add_assoc, Nat.add_comm 1]
        rfl
      rw [hall, startsWithAt]
      simp only [peek_fst]
      by_cases hfirst : l.coming n == some x
      · rw [if_pos hfirst, ih, coming_peek, and_iff_right hfirst]
      · simp [hfirst]

/-! ## Taking -/

omit [BEq α] in
/-- The next outcome is taken, from the queue if one waits there, and the others move up. -/
theorem next_eq (l : Lookahead σ α) :
    l.next.1 = l.coming 0 ∧ l.next.2.coming = fun n => l.coming (1 + n) := by
  unfold next
  rcases hqueue : l.queue with _ | ⟨item, queue⟩
  · refine ⟨by simp [coming, hqueue, outcome], funext fun n => ?_⟩
    simp [coming, hqueue, Nat.add_comm 1, outcome]
  · refine ⟨by simp [coming, hqueue], funext fun n => ?_⟩
    simp [coming, hqueue, Nat.add_comm 1]

/-! ## Calls one after the other -/

/-- What can be asked of a lookahead. -/
inductive Call (α : Type)
  | next
  | peek (n : Nat)
  | startsWith (items : List α)

/-- What is answered: an item or the end, or whether the items looked for come next. -/
inductive Reply (α : Type)
  | outcome (item : Option α)
  | verdict (found : Bool)
  deriving DecidableEq

/-- How many outcomes a call takes. -/
def Call.taken : Call α → Nat
  | .next => 1
  | _ => 0

def perform : Call α → Lookahead σ α → Reply α × Lookahead σ α
  | .next, l => l.next.map .outcome id
  | .peek n, l => (l.peek n).map .outcome id
  | .startsWith items, l => (l.startsWith items).map .verdict id

/-- Makes calls, one after the other. -/
def run : List (Call α) → Lookahead σ α → List (Reply α) × Lookahead σ α
  | [], l => ([], l)
  | call :: calls, l =>
      let (reply, l) := l.perform call
      let (replies, l) := run calls l
      (reply :: replies, l)

/-- What a call answers where these are the outcomes ahead. -/
def Call.answer (ahead : Nat → Option α) : Call α → Reply α
  | .next => .outcome (ahead 0)
  | .peek n => .outcome (ahead n)
  | .startsWith items => .verdict (∀ i : Fin items.length, ahead i == some items[i])

/-- Where equality is what `==` tells, the items looked for are found just if they come next, all of
them. -/
theorem Call.answer_startsWith [LawfulBEq α] (ahead : Nat → Option α) (items : List α) :
    (Call.startsWith items).answer ahead = .verdict true ↔
      ∀ i : Fin items.length, ahead i = some items[i] := by
  simp [answer]

/-- A call answers from the outcomes ahead, and only `next` takes one of them. -/
theorem perform_eq (call : Call α) (l : Lookahead σ α) :
    (l.perform call).1 = call.answer l.coming ∧
      (l.perform call).2.coming = fun n => l.coming (call.taken + n) := by
  cases call with
  | next => exact ⟨congrArg Reply.outcome l.next_eq.1, l.next_eq.2⟩
  | peek n =>
      refine ⟨congrArg Reply.outcome (peek_fst n l), (coming_peek n l).trans ?_⟩
      simp [Call.taken]
  | startsWith items =>
      refine ⟨congrArg Reply.verdict ?_, (coming_startsWithAt 0 items l).trans ?_⟩
      · rw [Bool.eq_iff_iff, decide_eq_true_eq]
        simpa only [Nat.zero_add] using startsWithAt_fst 0 items l
      · simp [Call.taken]

/-- The outcomes that calls take, all together. -/
def takenBy : List (Call α) → Nat
  | [] => 0
  | call :: calls => call.taken + takenBy calls

theorem run_eq (calls : List (Call α)) (l : Lookahead σ α) :
    (l.run calls).1 =
        calls.mapIdx (fun i call => call.answer fun n => l.coming (takenBy (calls.take i) + n)) ∧
      (l.run calls).2.coming = fun n => l.coming (takenBy calls + n) := by
  induction calls generalizing l with
  | nil => exact ⟨rfl, funext fun n => by rw [takenBy, Nat.zero_add]; rfl⟩
  | cons call calls ih =>
      obtain ⟨hreply, hahead⟩ := l.perform_eq call
      obtain ⟨hreplies, hrest⟩ := ih (l.perform call).2
      rw [hahead] at hreplies hrest
      refine ⟨?_, ?_⟩
      · change (l.perform call).1 :: ((l.perform call).2.run calls).1 = _
        rw [hreply, hreplies, List.mapIdx_cons]
        simp only [List.take_zero, List.take_succ_cons, takenBy, Nat.zero_add, Nat.add_assoc]
      · change ((l.perform call).2.run calls).2.coming = _
        rw [hrest]
        simp only [takenBy, Nat.add_assoc]

/-- Whatever calls are made on a lookahead, each of them answers from what the pulls of the source
give, ends and items behind an end alike, as many pulls on as outcomes have been taken before it.
What has been looked at changes no answer, and nothing of what is left. -/
theorem run_transparent (pull : σ → Option α × σ) (source : σ) (calls : List (Call α)) :
    ((ofSource pull source).run calls).1 = calls.mapIdx (fun i call =>
        call.answer fun n => outcome pull source (takenBy (calls.take i) + n)) ∧
      ((ofSource pull source).run calls).2.coming =
        fun n => outcome pull source (takenBy calls + n) := by
  simpa using run_eq calls (ofSource pull source)

/-- An end that has been looked past is given in its turn, and so is the item behind it. -/
example :
    ((ofSource (fun rest : List (Option Nat) => (rest.head?.join, rest.tail))
        [some 1, none, some 2]).run
      [.peek 2, .startsWith [1, 2], .next, .next, .next, .peek 0]).1 =
        [.outcome (some 2), .verdict false, .outcome (some 1), .outcome none, .outcome (some 2),
          .outcome none] := by
  decide

end Lookahead
end CSyntax
