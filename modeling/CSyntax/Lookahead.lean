/-!
# Lookahead — a queue of items read ahead of their use

A `Lookahead` wraps a source that yields one item at a time and keeps the items that were looked
at but not taken.  The source may yield nothing at one pull and an item at a later one, so what is
queued is the outcome of a pull.

* `Lookahead.next` takes the next outcome, from the queue first;
* `Lookahead.peek n` is the outcome that the `n`-th call of `next` from now would have;
* `Lookahead.startsWith` compares the coming items with a list.
-/

namespace CSyntax

/-- A source of items: `pull` gives the next outcome and the source after it. -/
structure Lookahead (σ : Type) (α : Type) where
  pull : σ → Option α × σ
  source : σ
  queue : List (Option α)

namespace Lookahead

variable {σ α : Type}

def ofSource (pull : σ → Option α × σ) (source : σ) : Lookahead σ α :=
  { pull := pull, source := source, queue := [] }

/-- The items of a list, then nothing for ever. -/
def ofList (items : List α) : Lookahead (List α) α :=
  ofSource (fun rest => (rest.head?, rest.tail)) items

/-- Queues `k` further outcomes of the source. -/
def fill : Nat → Lookahead σ α → Lookahead σ α
  | 0, l => l
  | k + 1, l =>
      let (item, source) := l.pull l.source
      fill k { l with source := source, queue := l.queue ++ [item] }

def peek (n : Nat) (l : Lookahead σ α) : Option α × Lookahead σ α :=
  let filled := l.fill (n + 1 - l.queue.length)
  (filled.queue[n]?.join, filled)

def next (l : Lookahead σ α) : Option α × Lookahead σ α :=
  match l.queue with
  | item :: queue => (item, { l with queue := queue })
  | [] =>
      let (item, source) := l.pull l.source
      (item, { l with source := source })

/-- Whether the outcomes from the `n`-th on are there and equal the given items. -/
def startsWithAt [BEq α] : Nat → List α → Lookahead σ α → Bool × Lookahead σ α
  | _, [], l => (true, l)
  | n, x :: xs, l =>
      let (item, l) := l.peek n
      if item == some x then startsWithAt (n + 1) xs l else (false, l)

def startsWith [BEq α] (items : List α) (l : Lookahead σ α) : Bool × Lookahead σ α :=
  startsWithAt 0 items l

end Lookahead

end CSyntax
