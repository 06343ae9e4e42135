import Fleet.Platform.Basic

/-!
# A platform that follows a script

The n-th call is answered by the n-th reply of a script, whatever the call is. A reply of another form than
the call asks for, or no reply at all, is a refusal.
-/

namespace Fleet

/-- One reply of a script. -/
inductive ScriptReply
  | failure (f : Failure)
  | resource (r : Option Resource)
  | resources (rs : List Resource)
  /-- The change is accepted as an operation. -/
  | accept
  | progress (status : OperationStatus) (errors : List OperationError)

structure Script where
  replies : List ScriptReply
  /-- How many changes have been accepted. -/
  accepted : Nat

namespace Script

def ofReplies (rs : List ScriptReply) : Script := ⟨rs, 0⟩

def refusal (code : String) : Failure := .rejected (.other code) "the script has no such reply"

/-- The handle of the `n`-th accepted change. -/
def handle (n : Nat) (kind : OperationKind) (scope : Scope) (target : Kind) (name : String) : OperationHandle :=
  let operation := "op-" ++ toString n
  ⟨operation, "link/" ++ operation, kind, scope, ⟨target, name, "", scope, none⟩⟩

/-- What a reply says to a call, when the form fits; `n` is the number of an accepted change. -/
def read (n : Nat) : (c : Call) → ScriptReply → Option (Except Failure c.Value)
  | _, .failure f => some (.error f)
  | .get _ _ _, .resource r => some (.ok r)
  | .list _ _, .resources rs => some (.ok rs)
  | .insert scope spec, .accept => some (.ok (handle n .insert scope spec.kind spec.name))
  | .delete kind scope name, .accept => some (.ok (handle n .delete scope kind name))
  | .setTags kind scope name _, .accept => some (.ok (handle n .update scope kind name))
  | .operation h, .progress status errors => some (.ok ⟨h, status, errors, none, none, none⟩)
  | _, _ => none

/-- The state after a call has been answered by a reply. -/
def next (s : Script) (c : Call) (reply : ScriptReply) : Script :=
  ⟨s.replies.tail, match reply with
    | .accept => if c.isMutation then s.accepted + 1 else s.accepted
    | _ => s.accepted⟩

def answer (c : Call) (s : Script) : Except Failure c.Value × Script :=
  match s.replies with
  | [] => (.error (refusal "SCRIPT_END"), s)
  | r :: _ => ((read (s.accepted + 1) c r).getD (.error (refusal "SCRIPT_BAD")), s.next c r)

end Script

instance : Platform Script where
  answer := Script.answer
  name := "scripted"

end Fleet
