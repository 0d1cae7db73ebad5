import Mathlib.Data.List.Basic

/-!
# The mailboxes of a caller that waits for its answers

A caller puts requests into mailboxes, each a queue of requests and a queue of responses, and waits
for the response before it asks again. What all boxes hold is then given by one `Talk`: nothing, a
request in one box, or a response in one box.

* `ask_silent`, `take_asked`, `answer_taken`, `receive_answered` — the four moves of an exchange.
* `inHand_eq_some_iff`, `req_box_eq_cons_iff`, `rsp_box_eq_cons_iff` — what a server that holds a
  response, or a reader of a box, learns of the exchange.
* `eq_of_holds` — at most one box holds a message, and it holds one.
-/

namespace Rids.Lib.Mailbox

/-- A queue of requests and a queue of responses. -/
structure Box (Q R : Type*) where
  req : List Q
  rsp : List R

/-- How far an exchange has come, and in which box. A server that has taken a request holds the
response that it will put. -/
inductive Talk (ι Q R : Type*)
  | silent
  | asked (i : ι) (q : Q)
  | taken (i : ι) (r : R)
  | answered (i : ι) (r : R)

variable {ι Q R : Type*}

/-- The response, once there is one. -/
def Talk.response : Talk ι Q R → Option R
  | silent => none
  | asked _ _ => none
  | taken _ r => some r
  | answered _ r => some r

/-- The box whose request a server has taken, with the response that it holds. -/
def Talk.inHand : Talk ι Q R → Option (ι × R)
  | silent => none
  | asked _ _ => none
  | taken i r => some (i, r)
  | answered _ _ => none

/-- The number of messages in a box. -/
def Box.size (b : Box Q R) : ℕ := b.req.length + b.rsp.length

/-- A reply is in hand exactly in the state `taken`. -/
theorem inHand_eq_some_iff {talk : Talk ι Q R} {i : ι} {r : R} :
    talk.inHand = some (i, r) ↔ talk = .taken i r := by
  cases talk with
  | silent => exact ⟨nofun, nofun⟩
  | asked j q => exact ⟨nofun, nofun⟩
  | taken j r' => simp [Talk.inHand]
  | answered j r' => exact ⟨nofun, nofun⟩

variable [DecidableEq ι]

/-- What the boxes hold. -/
def Talk.box : Talk ι Q R → ι → Box Q R
  | silent, _ => ⟨[], []⟩
  | asked i q, j => if j = i then ⟨[q], []⟩ else ⟨[], []⟩
  | taken _ _, _ => ⟨[], []⟩
  | answered i r, j => if j = i then ⟨[], [r]⟩ else ⟨[], []⟩

/-! ### Moves -/

/-- The caller enqueues a request. -/
def ask (i : ι) (q : Q) (boxes : ι → Box Q R) : ι → Box Q R :=
  Function.update boxes i { boxes i with req := (boxes i).req ++ [q] }

/-- A server dequeues a request. -/
def take (i : ι) (boxes : ι → Box Q R) : ι → Box Q R :=
  Function.update boxes i { boxes i with req := (boxes i).req.tail }

/-- A server enqueues a response. -/
def answer (i : ι) (r : R) (boxes : ι → Box Q R) : ι → Box Q R :=
  Function.update boxes i { boxes i with rsp := (boxes i).rsp ++ [r] }

/-- The caller dequeues a response. -/
def receive (i : ι) (boxes : ι → Box Q R) : ι → Box Q R :=
  Function.update boxes i { boxes i with rsp := (boxes i).rsp.tail }

variable (i : ι)

/-- Asking leads from `silent` to `asked`. -/
theorem ask_silent (q : Q) :
    ask i q (Talk.silent : Talk ι Q R).box = (Talk.asked i q).box := by
  funext j
  by_cases hj : j = i
  · subst hj
    simp [ask, Talk.box]
  · simp [ask, Talk.box, hj]

/-- Taking the request leads from `asked` to `taken`. -/
theorem take_asked (q : Q) (r : R) :
    take i (Talk.asked i q : Talk ι Q R).box = (Talk.taken i r).box := by
  funext j
  by_cases hj : j = i
  · subst hj
    simp [take, Talk.box]
  · simp [take, Talk.box, hj]

/-- Answering leads from `taken` to `answered`. -/
theorem answer_taken (r : R) :
    answer i r (Talk.taken i r : Talk ι Q R).box = (Talk.answered i r).box := by
  funext j
  by_cases hj : j = i
  · subst hj
    simp [answer, Talk.box]
  · simp [answer, Talk.box, hj]

/-- Receiving the reply leads from `answered` back to `silent`. -/
theorem receive_answered (r : R) :
    receive i (Talk.answered i r : Talk ι Q R).box = Talk.silent.box := by
  funext j
  by_cases hj : j = i
  · subst hj
    simp [receive, Talk.box]
  · simp [receive, Talk.box, hj]

/-! ### Reading a box -/

variable {i} {talk : Talk ι Q R}

/-- The request ring holds at most the one request that was asked. -/
theorem req_box_eq_cons_iff {q : Q} {qs : List Q} :
    (talk.box i).req = q :: qs ↔ talk = .asked i q ∧ qs = [] := by
  cases talk with
  | silent => simp [Talk.box]
  | asked j q' =>
    by_cases hj : i = j
    · subst hj
      simp [Talk.box, eq_comm]
    · simp [Talk.box, hj, Ne.symm hj]
  | taken j r' => simp [Talk.box]
  | answered j r => by_cases hj : i = j <;> simp [Talk.box, hj]

/-- The reply ring holds at most the one reply that was given. -/
theorem rsp_box_eq_cons_iff {r : R} {rs : List R} :
    (talk.box i).rsp = r :: rs ↔ talk = .answered i r ∧ rs = [] := by
  cases talk with
  | silent => simp [Talk.box]
  | asked j q => by_cases hj : i = j <;> simp [Talk.box, hj]
  | taken j r' => simp [Talk.box]
  | answered j r' =>
    by_cases hj : i = j
    · subst hj
      simp [Talk.box, eq_comm]
    · simp [Talk.box, hj, Ne.symm hj]

/-- A box holds one message at most. -/
theorem size_box_le (talk : Talk ι Q R) (i : ι) : (talk.box i).size ≤ 1 := by
  cases talk with
  | silent => simp [Talk.box, Box.size]
  | asked j q => by_cases hj : i = j <;> simp [Talk.box, Box.size, hj]
  | taken j r => simp [Talk.box, Box.size]
  | answered j r => by_cases hj : i = j <;> simp [Talk.box, Box.size, hj]

/-- Two boxes that hold a message are one. -/
theorem eq_of_holds {j : ι} (hi : (talk.box i).size ≠ 0) (hj : (talk.box j).size ≠ 0) : i = j := by
  cases talk with
  | silent => simp [Talk.box, Box.size] at hi
  | asked k q =>
    by_contra hne
    by_cases hik : i = k
    · subst hik
      simp [Talk.box, Box.size, Ne.symm hne] at hj
    · simp [Talk.box, Box.size, hik] at hi
  | taken k r => simp [Talk.box, Box.size] at hi
  | answered k r =>
    by_contra hne
    by_cases hik : i = k
    · subst hik
      simp [Talk.box, Box.size, Ne.symm hne] at hj
    · simp [Talk.box, Box.size, hik] at hi

end Rids.Lib.Mailbox
