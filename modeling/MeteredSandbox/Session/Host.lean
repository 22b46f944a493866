import MeteredSandbox.Session.Basic

/-!
# Hosts

A host runs any number of sessions over one registry. What a session is asked to do is a `Request`,
so that a whole history is a list of requests; `Host.perform` carries one out.
-/

namespace MeteredSandbox

/-- An operation with its arguments. -/
inductive Request where
  | link (digest : Digest)
  | unlink (handle : Handle)
  | setInk (handle : Handle) (budget : Int)
  | inkLeft (handle : Handle)
  | inkStatus (handle : Handle)
  | setDepth (handle : Handle) (limit : Nat)
  | depthLeft (handle : Handle)
  | callEntry (handle : Handle) (selector : Int)
  | runStart (handle : Handle)
  | halt
  | pushOperand (value : Value)
  | popOperand

/-- What a session answers. -/
inductive Reply where
  | done
  | linked (handle : Handle)
  | ink (remaining : Int)
  | status (status : InkStatus)
  | depth (remaining : Nat)
  | outcome (outcome : Outcome)
  | operand (value : Option Value)

namespace Request

/-- The handle that a request names. -/
def handle? : Request → Option Handle
  | link _ | halt | pushOperand _ | popOperand => none
  | unlink h | setInk h _ | inkLeft h | inkStatus h | setDepth h _ | depthLeft h | callEntry h _
  | runStart h => some h

/-- An operation that has nothing to answer. -/
def done (operation : SessionM Unit) : SessionM Reply := do
  operation
  return .done

/-- Carries out a request. Calls take at most `limit` turns. -/
def perform (limit : Nat) : Request → SessionM Reply
  | link digest => .linked <$> Session.link digest
  | unlink handle => done <| Session.unlink handle
  | setInk handle budget => done <| Session.setInk handle budget
  | inkLeft handle => .ink <$> Session.inkLeft handle
  | inkStatus handle => .status <$> Session.inkStatus handle
  | setDepth handle depth => done <| Session.setDepth handle depth
  | depthLeft handle => .depth <$> Session.depthLeft handle
  | callEntry handle selector => .outcome <$> Session.callEntry limit handle selector
  | runStart handle => .outcome <$> Session.runStart limit handle
  | halt => done <| Session.halt
  | pushOperand value => done <| Session.pushOperand value
  | popOperand => .operand <$> Session.popOperand

end Request

/-- Sessions over one registry. -/
structure Host where
  registry : Registry
  /-- The sessions under their numbers. One that was dropped is gone. -/
  sessions : List (Option Session) := []

namespace Host

/-- A session that has not been dropped. -/
def session? (h : Host) (number : Nat) : Option Session := (h.sessions[number]?).join

/-- Opens a session, under the next number. -/
def openSession (h : Host) : Host := { h with sessions := h.sessions ++ [some {}] }

/-- Carries out a request in a session, unless that was dropped. -/
def perform (limit : Nat) (number : Nat) (request : Request) (h : Host) :
    Option (Except SessionError Reply × Host) := do
  let session ← h.session? number
  let put (d : Desk) : Host :=
    { registry := d.registry, sessions := h.sessions.set number (some d.session) }
  match request.perform limit { registry := h.registry, session } with
  | .ok reply d => return (.ok reply, put d)
  | .error e d => return (.error e, put d)

/-- Drops a session. What it still owns is unlinked. -/
def dropSession (number : Nat) (h : Host) : Host :=
  match h.session? number with
  | none => h
  | some session => {
      registry := session.owned.foldl Registry.erase h.registry
      sessions := h.sessions.set number none }

end Host

end MeteredSandbox
