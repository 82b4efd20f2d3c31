/-
# Shared workspaces

Several clients may work on one workspace. Each of them has calls to make, in order, and a lock lets
one call in at a time: it is answered before the next one begins, whoever makes that. Which client is
next is not settled here; a run is given by the turns that the clients get.
-/

import ContractBlocks.History.Workspace

namespace ContractBlocks

/-- What a client asks of a workspace. The identity of a new block is the one that was given or has
been generated for it. -/
inductive Call where
  | add (id : BlockId) (tagName : String) (seed : Seed) (position : Position)
  | update (id : BlockId) (patch : Patch)
  | move (id : BlockId) (position : Position)
  | remove (id : BlockId)
deriving DecidableEq, Repr

namespace Call

/-- The identity that a call names. -/
def target : Call → BlockId
  | .add id _ _ _ | .update id _ | .move id _ | .remove id => id

/-- A call that changes nothing where it succeeds: an update by the empty patch. -/
def isIdle : Call → Bool
  | .update _ patch => patch.isEmpty
  | _ => false

end Call

/-- What a call that succeeds is answered. -/
inductive Reply where
  /-- The identity of the new block. -/
  | added (id : BlockId)
  | done
  /-- The block that was removed. -/
  | removed (p : Placed)
deriving DecidableEq, Repr

/-- A call and how it was answered. -/
structure Exchange where
  call : Call
  answer : Except EditError Reply

/-- The call was an effective edit: it has succeeded and was not idle. -/
def Exchange.isEffective (e : Exchange) : Bool := e.answer.isOk && !e.call.isIdle

namespace Workspace

/-- Carries out a call. -/
def call (w : Workspace) : Call → Except EditError (Workspace × Reply)
  | .add id tagName seed position =>
    (w.add id tagName seed position).map fun w' => (w', .added id)
  | .update id patch => (w.edit (.update id patch)).map fun w' => (w', .done)
  | .move id position => (w.edit (.move id position)).map fun w' => (w', .done)
  | .remove id => (w.take id).map fun r => (r.1, .removed r.2)

/-- Carries out a call and answers it; one that fails leaves the workspace as it is. -/
def serve (w : Workspace) (c : Call) : Workspace × Except EditError Reply :=
  match w.call c with
  | .ok (w', reply) => (w', .ok reply)
  | .error error => (w, .error error)

/-- Carries out one more call and takes down the exchange. -/
def serveNext (p : Workspace × List Exchange) (c : Call) : Workspace × List Exchange :=
  let r := p.1.serve c
  (r.1, p.2 ++ [⟨c, r.2⟩])

/-- Carries out calls in order, past those that fail, and takes down the exchanges. -/
def serveAll (w : Workspace) (calls : List Call) : Workspace × List Exchange :=
  calls.foldl serveNext (w, [])

end Workspace

/-- A workspace shared by `n` clients. -/
structure SharedWorkspace (n : Nat) where
  workspace : Workspace
  /-- The calls that each client has still to make. -/
  waiting : Fin n → List Call
  /-- The exchanges in the order in which the lock let them in, each with its client. -/
  log : List (Fin n × Exchange)

namespace SharedWorkspace

variable {n : Nat}

/-- A shared workspace that starts at a collection, with the calls that each client is to make. -/
def start (components : List Placed) (scripts : Fin n → List Call) : SharedWorkspace n :=
  ⟨.ofComponents components, scripts, []⟩

/-- The turn of a client: its next call is let in and answered, if it has one. -/
def turn (s : SharedWorkspace n) (i : Fin n) : SharedWorkspace n :=
  match s.waiting i with
  | [] => s
  | c :: rest =>
    let r := s.workspace.serve c
    { workspace := r.1
      waiting := fun j => if j = i then rest else s.waiting j
      log := s.log ++ [(i, ⟨c, r.2⟩)] }

/-- The clients get turns in the given order. -/
def run (s : SharedWorkspace n) (turns : List (Fin n)) : SharedWorkspace n := turns.foldl turn s

/-- The exchanges with one client, in order. -/
def exchanges (s : SharedWorkspace n) (i : Fin n) : List Exchange :=
  s.log.filterMap fun e => if e.1 = i then some e.2 else none

/-- How many calls were effective edits. -/
def effectiveCount (s : SharedWorkspace n) : Nat := s.log.countP fun e => e.2.isEffective

end SharedWorkspace

end ContractBlocks
