import IndexFs.Handshake
import IndexFs.Proofs.Frame.Stream
import IndexFs.Request
import IndexFs.Server

/-!
# Messages on their way

What the two sides say fits into frames as long as its content does, and each side finds in a message what
the other one has put into it.
-/

namespace IndexFs

namespace Message

/-! ## The members of messages -/

/-- A request names its id, the version of the protocol, the method and what the method is asked. -/
theorem request_eq (id : Nat) (method : String) (params : Json) :
    request id method params =
      .object [("id", .ofNat id), ("jsonrpc", .string "2.0"), ("method", .string method),
        ("params", params)] := by
  simp only [request, Json.ofMembers, Json.sortMembers, List.foldl_cons, List.foldl_nil, Json.insert,
    String.reduceLT, String.reduceEq, ↓reduceIte]

/-- A notification is a request without an id: nobody answers it. -/
theorem notification_eq (method : String) (params : Json) :
    notification method params =
      .object [("jsonrpc", .string "2.0"), ("method", .string method), ("params", params)] := by
  simp only [notification, Json.ofMembers, Json.sortMembers, List.foldl_cons, List.foldl_nil, Json.insert,
    String.reduceLT, String.reduceEq, ↓reduceIte]

/-- A request of the other side is refused under its own id, with the code for an unknown method and a text
that names the method. -/
theorem rejection_eq (id : Json) (method : String) :
    rejection id method =
      .object [("error", .object [("code", .ofInt (-32601)),
          ("message", .string ("Method not found: " ++ method))]),
        ("id", id), ("jsonrpc", .string "2.0")] := by
  simp only [rejection, methodNotFound, Json.ofMembers, Json.sortMembers, List.foldl_cons, List.foldl_nil,
    Json.insert, String.reduceLT, String.reduceEq, ↓reduceIte]

/-- A response that succeeded carries the value as its result. -/
theorem response_ok_eq (id v : Json) :
    response id (.ok v) = .object [("id", id), ("jsonrpc", .string "2.0"), ("result", v)] := by
  simp only [response, Json.ofMembers, Json.sortMembers, List.foldl_cons, List.foldl_nil, Json.insert,
    String.reduceLT, String.reduceEq, ↓reduceIte]

/-- A response that failed carries a code and a text in place of a result. -/
theorem response_error_eq (id : Json) (code : Int) (text : String) :
    response id (.error (code, text)) =
      .object [("error", .object [("code", .ofInt code), ("message", .string text)]), ("id", id),
        ("jsonrpc", .string "2.0")] := by
  simp only [response, Json.ofMembers, Json.sortMembers, List.foldl_cons, List.foldl_nil, Json.insert,
    String.reduceLT, String.reduceEq, ↓reduceIte]

/-! ## Frames -/

/-- A natural number is written as an integer as long as it fits into 64 bits. -/
theorem regular_ofNat {n : Nat} (h : (n : Int) ≤ Number.maxUnsigned) : (Json.ofNat n).Regular := by
  have : Number.minSigned ≤ n := by
    unfold Number.minSigned
    omega
  exact ⟨this, h⟩

/-- A request fits into a frame if its parameters are regular, leave room for one more level and are not too
long. -/
theorem fits_request {id : Nat} {method : String} {params : Json}
    (hid : (id : Int) ≤ Number.maxUnsigned) (hregular : params.Regular)
    (hdepth : params.depth < Json.maxDepth)
    (hsize : (request id method params).bytes.length ≤ Frame.maxBody) :
    Frame.Fits (request id method params) := by
  refine ⟨?_, ?_, hsize⟩
  · -- keys that are written in order are those of an object in its normal form
    rw [request_eq]
    have := regular_ofNat hid
    refine Json.regular_object ["id", "jsonrpc", "method", "params"] rfl (by decide) ?_
    simp [Json.Regular, Json.MembersRegular, hregular, this]
  · rw [request_eq]
    simp only [Json.depth, Json.membersDepth, Json.ofNat]
    omega

/-- A notification fits into a frame under the same conditions as a request, and has no id to bound. -/
theorem fits_notification {method : String} {params : Json} (hregular : params.Regular)
    (hdepth : params.depth < Json.maxDepth)
    (hsize : (notification method params).bytes.length ≤ Frame.maxBody) :
    Frame.Fits (notification method params) := by
  refine ⟨?_, ?_, hsize⟩
  · rw [notification_eq]
    refine Json.regular_object ["jsonrpc", "method", "params"] rfl (by decide) ?_
    simp [Json.Regular, Json.MembersRegular, hregular]
  · rw [notification_eq]
    simp only [Json.depth, Json.membersDepth]
    omega

/-- A response fits into a frame if its result does. -/
theorem fits_response_ok {id : Nat} {v : Json} (hid : (id : Int) ≤ Number.maxUnsigned)
    (hregular : v.Regular) (hdepth : v.depth < Json.maxDepth)
    (hsize : (response (.ofNat id) (.ok v)).bytes.length ≤ Frame.maxBody) :
    Frame.Fits (response (.ofNat id) (.ok v)) := by
  refine ⟨?_, ?_, hsize⟩
  · rw [response_ok_eq]
    have := regular_ofNat hid
    refine Json.regular_object ["id", "jsonrpc", "result"] rfl (by decide) ?_
    simp [Json.Regular, Json.MembersRegular, hregular, this]
  · rw [response_ok_eq]
    simp only [Json.depth, Json.membersDepth, Json.ofNat]
    omega

/-- An error of the server fits into a frame whatever its text says, unless that is too long. -/
theorem fits_response_error {id : Nat} {code : Int} {text : String}
    (hid : (id : Int) ≤ Number.maxUnsigned) (hleast : Number.minSigned ≤ code)
    (hmost : code ≤ Number.maxSigned)
    (hsize : (response (.ofNat id) (.error (code, text))).bytes.length ≤ Frame.maxBody) :
    Frame.Fits (response (.ofNat id) (.error (code, text))) := by
  refine ⟨?_, ?_, hsize⟩
  · -- the error is an object of its own, inside the response
    rw [response_error_eq]
    have := regular_ofNat hid
    have hcode : (Json.ofInt code).Regular := by
      refine ⟨hleast, Int.le_trans hmost ?_⟩
      decide
    have herror : (Json.object [("code", .ofInt code), ("message", .string text)]).Regular := by
      refine Json.regular_object ["code", "message"] rfl (by decide) ?_
      simp [Json.Regular, Json.MembersRegular, hcode]
    refine Json.regular_object ["error", "id", "jsonrpc"] rfl (by decide) ?_
    simp only [Json.MembersRegular, Json.Regular] at herror ⊢
    exact ⟨herror, this, trivial, trivial⟩
  · rw [response_error_eq]
    simp only [Json.depth, Json.membersDepth, Json.ofNat, Json.ofInt]
    decide

/-! ## What a message says -/

/-- An id is found in a response as the number that was written, if it is one of 64 bits with a sign. -/
theorem signed?_ofNat {id : Nat} (h : (id : Int) ≤ Number.maxSigned) :
    (Json.ofNat id).signed? = some (id : Int) := by
  have : Number.minSigned ≤ id := by
    unfold Number.minSigned
    omega
  exact if_pos ⟨this, h⟩

/-- What the server answered is what the client takes from the response. -/
theorem incoming_response_ok {id : Nat} (h : (id : Int) ≤ Number.maxSigned) (v : Json) :
    Incoming.of (response (.ofNat id) (.ok v)) = .response id (.ok v) := by
  rw [response_ok_eq]
  simp [Incoming.of, Json.get?, List.lookup_cons, signed?_ofNat h, outcome]

/-- The error that the server answered is what the client takes from the response, code and text. -/
theorem incoming_response_error {id : Nat} (h : (id : Int) ≤ Number.maxSigned) {code : Int}
    (hleast : Number.minSigned ≤ code) (hmost : code ≤ Number.maxSigned) (text : String) :
    Incoming.of (response (.ofNat id) (.error (code, text))) =
      .response id (.error (.server code text)) := by
  have hcode : (Json.ofInt code).signed? = some code := if_pos ⟨hleast, hmost⟩
  rw [response_error_eq]
  simp [Incoming.of, Json.get?, List.lookup_cons, signed?_ofNat h, outcome, hcode, Json.string?]

end Message

namespace Server

/-- The server takes a request for what it is, and answers it under its id. -/
theorem take_request (s : Server) (id : Nat) (method : String) (params : Json) :
    s.take (Message.request id method params) = s.answer (.ofNat id) (.request method params) := by
  rw [Message.request_eq]
  simp [take, Json.get?, List.lookup_cons, Json.string?]

/-- The server takes a notification for what it is, and answers nothing. -/
theorem take_notification (s : Server) (method : String) (params : Json) :
    s.take (Message.notification method params) = s.log (.notification method params) := by
  rw [Message.notification_eq]
  simp [take, Json.get?, List.lookup_cons, Json.string?]

end Server

/-! ## What the client asks -/

/-- The parameters of every question are regular, whatever the URL is. -/
theorem regular_params (uri : String) : (Method.params uri).Regular := by
  refine Json.regular_object ["uri"] rfl (by decide) ?_
  simp [Json.Regular, Json.MembersRegular]

/-- The parameters of every question are one level deep, so that a request has room for them. -/
theorem depth_params (uri : String) : (Method.params uri).depth < Json.maxDepth := by
  simp only [Method.params, UriParams.toJson, Json.depth, Json.membersDepth]
  decide

namespace Handshake

/-- How the client introduces itself: who it is, in which process it runs, and that it names no root. -/
theorem params_eq (c : Client) :
    params c =
      .object [("capabilities", .object []),
        ("clientInfo", .object [("name", .string c.name), ("version", .string c.version)]),
        ("processId", .ofNat c.processId), ("rootUri", .null)] := by
  simp only [params, Json.ofMembers, Json.sortMembers, List.foldl_cons, List.foldl_nil, Json.insert,
    String.reduceLT, String.reduceEq, ↓reduceIte]

/-- The introduction is regular if the number of the process fits into 64 bits. -/
theorem regular_params {c : Client} (h : (c.processId : Int) ≤ Number.maxUnsigned) :
    (params c).Regular := by
  have := Message.regular_ofNat h
  rw [params_eq]
  have hinfo : (Json.object [("name", .string c.name), ("version", .string c.version)]).Regular := by
    refine Json.regular_object ["name", "version"] rfl (by decide) ?_
    simp [Json.Regular, Json.MembersRegular]
  have hempty : (Json.object []).Regular := Json.regular_object [] rfl List.Pairwise.nil trivial
  refine Json.regular_object ["capabilities", "clientInfo", "processId", "rootUri"] rfl (by decide) ?_
  simp only [Json.MembersRegular]
  exact ⟨hempty, hinfo, this, trivial, trivial⟩

/-- The introduction is two levels deep, so that a request has room for it. -/
theorem depth_params (c : Client) : (params c).depth < Json.maxDepth := by
  rw [params_eq]
  simp only [Json.depth, Json.membersDepth, Json.ofNat]
  decide

/-- The confirmation always fits into a frame. -/
theorem fits_notification : Frame.Fits (Message.notification notificationMethod notificationParams) := by
  apply Message.fits_notification
  · simp [notificationParams, Json.Regular, Json.MembersRegular, Json.KeysAscend]
  · decide
  · rw [Message.notification_eq]
    decide

end Handshake

end IndexFs
