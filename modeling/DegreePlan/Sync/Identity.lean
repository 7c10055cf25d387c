import DegreePlan.Fault
import DegreePlan.Text.Blank
import DegreePlan.Text.Case

/-!
# Identity events

An event says that a user signed in or out or that a token was refreshed. The names of its fields
and of its kind are accepted in two spellings each.
-/

namespace DegreePlan.Sync

/-- What happened to an identity. -/
inductive EventKind where
  | signedIn
  | signedOut
  | tokenRefreshed
deriving DecidableEq, Inhabited

namespace EventKind

/-- The kind as text. -/
def text : EventKind → String
  | signedIn => "signedIn"
  | signedOut => "signedOut"
  | tokenRefreshed => "tokenRefreshed"

/-- The kind of a name, in any case and with or without underscore. -/
def ofName? (name : String) : Option EventKind :=
  match Text.lower (Text.strip name) with
  | "signedin" | "signed_in" => some signedIn
  | "signedout" | "signed_out" => some signedOut
  | "tokenrefreshed" | "token_refreshed" => some tokenRefreshed
  | _ => none

end EventKind

/-- An event of the identity provider. -/
structure IdentityEvent where
  user : Option String
  kind : EventKind
deriving DecidableEq, Inhabited

namespace IdentityEvent

/-- The user that a value names; null and the empty text name none. -/
def readUser : Json → Option String
  | .null => none
  | v => if v.asText.isEmpty then none else some v.asText

/-- An event from the values of its fields. -/
def ofFields (user kind : Json) : Except Fault IdentityEvent :=
  match EventKind.ofName? (kind.orElse (.str "")).asText with
  | some k => .ok { user := readUser user, kind := k }
  | none => .error (.identity (.unknownKind kind))

/-- The field of either name. -/
def fieldOfEither (fields : List (String × Json)) (name other : String) : Json :=
  (fields.lookup name).getD (Json.fieldOf fields other)

/-- An event from an object. Other values have no fields. -/
def ofJson (v : Json) : Except Fault IdentityEvent :=
  let fields := v.fields?.getD []
  ofFields (fieldOfEither fields "user_id" "userId") (fieldOfEither fields "event_kind" "eventKind")

end IdentityEvent
end DegreePlan.Sync
