import ApogeeFC.Lib.Mealy

/-!
# A server behind two queues

A client submits requests, a server answers them, and the client takes the replies. Requests and replies
travel in queues that keep their order and lose nothing. The server is a step function; an input either
takes the request at the front of the queue or has nothing to do with the client.

What happens is a list of moves, in any order that the queues allow. `Moves.conserves` says that nothing
is lost, made up or overtaken: the requests submitted are those taken and those still waiting, and the
replies put out are those delivered and those still under way. `Moves.answers` is for servers that
answer every request they take (`run_answers`): the answers delivered and under way are those to the
requests taken, in the same order.

A run of the server (`Moves.serves`), a block of requests (`Moves.submits`) and a block of replies
(`Moves.delivers`) are lists of moves, which is how a system is shown to be such an exchange.
-/

namespace Exchange
open Mealy

/-- A server, and which of its inputs take a request. -/
structure Server (σ ι ρ π : Type*) where
  step : σ → ι → Option (σ × List π)
  request? : ι → Option ρ

structure State (σ ρ π : Type*) where
  server : σ
  requests : List ρ := []
  replies : List π := []

inductive Move (ι ρ π : Type*) where
  | submit (request : ρ)
  | serve (input : ι)
  | deliver (reply : π)

variable {σ ι ρ π α : Type*} {S : Server σ ι ρ π}

/-- The requests among the moves. -/
def submitted (moves : List (Move ι ρ π)) : List ρ :=
  moves.filterMap fun
    | .submit request => some request
    | _ => none

/-- The inputs of the server. -/
def served (moves : List (Move ι ρ π)) : List ι :=
  moves.filterMap fun
    | .serve input => some input
    | _ => none

/-- The replies that arrived. -/
def delivered (moves : List (Move ι ρ π)) : List π :=
  moves.filterMap fun
    | .deliver reply => some reply
    | _ => none

/-- The requests that the server took. -/
def Server.taken (S : Server σ ι ρ π) (moves : List (Move ι ρ π)) : List ρ :=
  (served moves).filterMap S.request?

/-- What a move does. -/
inductive Step (S : Server σ ι ρ π) : State σ ρ π → Move ι ρ π → State σ ρ π → Prop
  | submit {server requests replies request} :
    Step S ⟨server, requests, replies⟩ (.submit request) ⟨server, requests ++ [request], replies⟩
  | serve {server server' input requests replies more} :
    S.step server input = some (server', more) →
    Step S ⟨server, (S.request? input).toList ++ requests, replies⟩ (.serve input)
      ⟨server', requests, replies ++ more⟩
  | deliver {server requests replies reply} :
    Step S ⟨server, requests, reply :: replies⟩ (.deliver reply) ⟨server, requests, replies⟩

/-- What moves do, one after the other. -/
inductive Moves (S : Server σ ι ρ π) : State σ ρ π → List (Move ι ρ π) → State σ ρ π → Prop
  | refl {s} : Moves S s [] s
  | cons {s s' s'' move moves} : Step S s move s' → Moves S s' moves s'' →
    Moves S s (move :: moves) s''

section Projections
variable (moves more : List (Move ι ρ π))

@[simp] lemma submitted_append : submitted (moves ++ more) = submitted moves ++ submitted more :=
  List.filterMap_append

@[simp] lemma served_append : served (moves ++ more) = served moves ++ served more :=
  List.filterMap_append

@[simp] lemma delivered_append : delivered (moves ++ more) = delivered moves ++ delivered more :=
  List.filterMap_append

end Projections

section Blocks
variable (requests : List ρ) (inputs : List ι) (replies : List π)

@[simp] lemma submitted_submits :
    submitted (requests.map (.submit : ρ → Move ι ρ π)) = requests := by
  simp [submitted, List.filterMap_map]

@[simp] lemma served_submits : served (requests.map (.submit : ρ → Move ι ρ π)) = [] := by
  simp [served, List.filterMap_map]

@[simp] lemma delivered_submits : delivered (requests.map (.submit : ρ → Move ι ρ π)) = [] := by
  simp [delivered, List.filterMap_map]

@[simp] lemma submitted_serves : submitted (inputs.map (.serve : ι → Move ι ρ π)) = [] := by
  simp [submitted, List.filterMap_map]

@[simp] lemma served_serves : served (inputs.map (.serve : ι → Move ι ρ π)) = inputs := by
  simp [served, List.filterMap_map]

@[simp] lemma delivered_serves : delivered (inputs.map (.serve : ι → Move ι ρ π)) = [] := by
  simp [delivered, List.filterMap_map]

@[simp] lemma submitted_delivers : submitted (replies.map (.deliver : π → Move ι ρ π)) = [] := by
  simp [submitted, List.filterMap_map]

@[simp] lemma served_delivers : served (replies.map (.deliver : π → Move ι ρ π)) = [] := by
  simp [served, List.filterMap_map]

@[simp] lemma delivered_delivers :
    delivered (replies.map (.deliver : π → Move ι ρ π)) = replies := by
  simp [delivered, List.filterMap_map]

end Blocks

/-- A server that answers every request it takes, and nothing else, does so in its runs. `I` is its
invariant, and `answer?` picks the answers among the replies. -/
lemma run_answers {I : σ → Prop} {answer? : π → Option α} {answer : ρ → α}
    (hstep : ∀ {server input server' more}, I server → S.step server input = some (server', more) →
      I server' ∧ more.filterMap answer? = (S.request? input).toList.map answer)
    {server server' : σ} {inputs more} (hi : I server)
    (h : run S.step server inputs = some (server', more)) :
    more.filterMap answer? = (inputs.filterMap S.request?).map answer := by
  induction inputs generalizing server more with
  | nil =>
    cases h
    rfl
  | cons input inputs ih =>
    obtain ⟨server₁, more₁, more₂, hs, hrest, e⟩ := run_cons_inv h
    obtain ⟨hi₁, e₁⟩ := hstep hi hs
    subst e
    rw [List.filterMap_append, e₁, ih hi₁ hrest]
    cases hq : S.request? input with
    | none => rw [List.filterMap_cons_none hq]; rfl
    | some request => rw [List.filterMap_cons_some hq]; rfl

namespace Moves

lemma trans {s s' s'' : State σ ρ π} {moves more} (h : Moves S s moves s')
    (h' : Moves S s' more s'') : Moves S s (moves ++ more) s'' := by
  induction h with
  | refl => exact h'
  | cons hs _ ih => exact .cons hs (ih h')

/-- Requests are submitted at any time. -/
lemma submits {server : σ} (more requests : List ρ) (replies : List π) :
    Moves S ⟨server, requests, replies⟩ (more.map .submit) ⟨server, requests ++ more, replies⟩ := by
  induction more generalizing requests with
  | nil =>
    rw [List.append_nil]
    exact .refl
  | cons request more ih =>
    rw [List.append_cons]
    exact .cons .submit (ih _)

/-- A run of the server takes the requests that it takes from the front. -/
lemma serves {server server' : σ} {inputs more} (h : run S.step server inputs = some (server', more))
    (requests : List ρ) (replies : List π) :
    Moves S ⟨server, inputs.filterMap S.request? ++ requests, replies⟩ (inputs.map .serve)
      ⟨server', requests, replies ++ more⟩ := by
  induction inputs generalizing server more replies with
  | nil =>
    cases h
    rw [List.append_nil]
    exact .refl
  | cons input inputs ih =>
    obtain ⟨server₁, more₁, more₂, hs, hr, e⟩ := run_cons_inv h
    subst e
    have hfront : (input :: inputs).filterMap S.request? ++ requests =
        (S.request? input).toList ++ (inputs.filterMap S.request? ++ requests) := by
      cases hi : S.request? input with
      | none => rw [List.filterMap_cons_none hi]; rfl
      | some request => rw [List.filterMap_cons_some hi]; rfl
    have hrest := ih hr (replies ++ more₁)
    rw [List.append_assoc] at hrest
    rw [hfront]
    exact .cons (.serve hs) hrest

/-- Replies are delivered from the front. -/
lemma delivers {server : σ} (requests : List ρ) (replies more : List π) :
    Moves S ⟨server, requests, replies ++ more⟩ (replies.map .deliver) ⟨server, requests, more⟩ := by
  induction replies with
  | nil => exact .refl
  | cons reply replies ih => exact .cons .deliver ih

/-- Nothing is lost, made up or overtaken. -/
lemma conserves {s s' : State σ ρ π} {moves} (h : Moves S s moves s') :
    s.requests ++ submitted moves = S.taken moves ++ s'.requests ∧
      ∃ more, run S.step s.server (served moves) = some (s'.server, more) ∧
        s.replies ++ more = delivered moves ++ s'.replies := by
  induction h with
  | refl => exact ⟨List.append_nil _, [], rfl, List.append_nil _⟩
  | @cons s s' s'' move moves hs _ ih =>
    obtain ⟨hrequests, more, hrun, hreplies⟩ := ih
    cases hs with
    | @submit server requests replies request =>
      refine ⟨?_, more, hrun, hreplies⟩
      show requests ++ request :: submitted moves = S.taken moves ++ s''.requests
      rw [List.append_cons]
      exact hrequests
    | @serve server server' input requests replies more₁ hstep =>
      refine ⟨?_, more₁ ++ more, run_cons hstep hrun, ?_⟩
      · have htaken : S.taken (.serve input :: moves) =
            (S.request? input).toList ++ S.taken moves := by
          show (input :: served moves).filterMap S.request? = _
          cases hi : S.request? input with
          | none => rw [List.filterMap_cons_none hi]; rfl
          | some request => rw [List.filterMap_cons_some hi]; rfl
        show (S.request? input).toList ++ requests ++ submitted moves = _
        rw [htaken, List.append_assoc, List.append_assoc, ← hrequests]
      · rw [← List.append_assoc]
        exact hreplies
    | @deliver server requests replies reply =>
      refine ⟨hrequests, more, hrun, ?_⟩
      show reply :: (replies ++ more) = reply :: (delivered moves ++ s''.replies)
      rw [hreplies]

/-- The answers delivered and under way are those to the requests taken. -/
lemma answers {I : σ → Prop} {answer? : π → Option α} {answer : ρ → α}
    (hstep : ∀ {server input server' more}, I server → S.step server input = some (server', more) →
      I server' ∧ more.filterMap answer? = (S.request? input).toList.map answer)
    {s s' : State σ ρ π} {moves} (hs : I s.server) (h : Moves S s moves s') :
    (delivered moves ++ s'.replies).filterMap answer? =
      s.replies.filterMap answer? ++ (S.taken moves).map answer := by
  obtain ⟨-, more, hr, hreplies⟩ := h.conserves
  rw [← hreplies, List.filterMap_append, run_answers hstep hs hr]
  rfl

end Moves

end Exchange
