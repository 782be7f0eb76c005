import DocFilter.Http

/-!
A web server that follows a script: it gives its replies one after the other, and the same reply
always once they are used up, and it keeps the requests.
-/

set_option autoImplicit false

namespace DocFilter.Http

/-- A server that follows a script. -/
structure Script where
  replies : List Reply
  /-- The reply when the others are used up. -/
  afterwards : Reply
  /-- The requests so far, in order. -/
  requests : List Request := []

/-- Answers a request. -/
def Script.answer (request : Request) (s : Script) : Reply × Script :=
  let requests := s.requests ++ [request]
  match s.replies with
  | [] => (s.afterwards, { s with requests })
  | reply :: replies => (reply, { s with replies, requests })

end DocFilter.Http
