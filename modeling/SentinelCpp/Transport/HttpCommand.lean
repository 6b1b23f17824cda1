import SentinelCpp.Transport.CommandRequest

/-!
# Parsing a command from an HTTP request

The URI `/cmd?q` names a command and its parameters.  For a POST the form body is put behind `/?%` and
parsed like a URI, after the URI of the request.  The body is copied into a vector that has no room for it,
and the target of the second parsing, an empty one, replaces that of the first.
-/

namespace SentinelCpp.Transport

open Lib CommandRequest

/-! ### The code -/

inductive EvhttpCmdType
  | get
  | post
  | head
  | put
  | delete
  | options
  | trace
  | connect
  | patch
  deriving DecidableEq

/-- `evhttp_request`: what `evhttp_request_uri` and `evhttp_request_get_command` return, and the bytes of
the input buffer. -/
structure EvhttpRequest where
  uri : Text
  command : EvhttpCmdType
  inputBuffer : Text

/-- `evhttp_parse_query`: the key/value pairs of the text after the first `?`.  A key is not empty, and a
text without `=` has no pair. -/
structure EvhttpParseQuery where
  pairs : Text → List (Text × Text)
  key_ne_nil : ∀ query, ∀ p ∈ pairs query, p.1 ≠ []
  pairs_of_noEquals : ∀ query, '=' ∉ query → pairs query = []

/-- The pairs that the call returns for a URI. -/
def EvhttpParseQuery.parse (lib : EvhttpParseQuery) (uri : Text) : List (Text × Text) :=
  match uri.dropWhile (· ≠ '?') with
  | [] => []
  | _ :: query => lib.pairs query

/-- `s.find(c)`; `none` is `npos`. -/
def find (s : Text) (c : Char) : Option ℕ := s.findIdx? (· = c)

/-- `s.find_last_of(c)`. -/
def findLastOf (s : Text) (c : Char) : Option ℕ :=
  (s.reverse.findIdx? (· = c)).map fun i => s.length - 1 - i

/-- `s.substr(pos, count)`. -/
def substr (s : Text) (pos count : ℕ) : Text := (s.drop pos).take count

/-- `a - b` of type `size_t`. -/
def sizeSub (a b : ℕ) : ℕ := if b ≤ a then a - b else a + 2 ^ 64 - b

/-- `memcpy(dst.data(), src, count)`; `none` is a copy that leaves the elements of `dst`. -/
def memcpy (dst src : Text) (count : ℕ) : Option Text :=
  if count ≤ dst.length then some (src.take count ++ dst.drop count) else none

/-- A query of one argument without escapes. -/
def EvhttpParseQuery.oneArgument : EvhttpParseQuery where
  pairs query :=
    let key := query.takeWhile (· ≠ '=')
    if key ≠ [] ∧ '=' ∈ query then [(key, (query.dropWhile (· ≠ '=')).tail)] else []
  key_ne_nil query p hp := by
    dsimp only at hp
    split_ifs at hp with h
    · obtain rfl := List.mem_singleton.mp hp
      exact h.1
    · exact absurd hp List.not_mem_nil
  pairs_of_noEquals query h := if_neg fun hcond => h hcond.2

variable (lib : EvhttpParseQuery)

/-- `ParseRequestUri(uri, request)`. -/
def parseRequestUri (uri : Text) (request : CommandRequest) : CommandRequest :=
  let request := request.setBody uri
  let start := find uri '/'
  let ask :=
    match find uri '?' with
    | none => findLastOf uri ' '
    | some i => some i
  let pos := match start with | some i => i + 1 | none => 0
  let count := match ask with | some i => sizeSub i 1 | none => uri.length
  let request := request.addMetadata kRequestTarget (substr uri pos count)
  request.addParams (lib.parse uri)

/-- `ParsePostData(http_req, request)`. -/
def parsePostData (httpReq : EvhttpRequest) (request : CommandRequest) : Option CommandRequest :=
  let dataLen := httpReq.inputBuffer.length
  let postData : Text := []
  (memcpy postData httpReq.inputBuffer dataLen).map fun postData =>
    parseRequestUri lib ("/?%".toList ++ postData) request

/-- `ParseHttpRequest(http_req)`. -/
def parseHttpRequest (httpReq : EvhttpRequest) : Option CommandRequest :=
  let request := parseRequestUri lib httpReq.uri {}
  if httpReq.command = .post then parsePostData lib httpReq request else some request

/-- `OnHttpRequest(http_req)`: the answer of the handler of the target. -/
def onHttpRequest (handlerMap : Assoc Text (CommandRequest → CommandResponse))
    (httpReq : EvhttpRequest) : Option CommandResponse :=
  (parseHttpRequest lib httpReq).map fun request =>
    let target := request.getMetadata kRequestTarget
    match handlerMap.find? target with
    | none => .ofFailure ("Unknown command: ".toList ++ target)
    | some handle => handle request

/-! ### One parsing of a URI -/

/-- The URI `/cmd` or `/cmd?q`. -/
def uriOf (cmd : Text) : Option Text → Text
  | none => '/' :: cmd
  | some q => '/' :: (cmd ++ '?' :: q)

/-- The pairs of the query, if there is one. -/
def queryPairs (lib : EvhttpParseQuery) : Option Text → List (Text × Text)
  | none => []
  | some q => lib.pairs q

section

variable {lib} {cmd f : Text} {q : Option Text} {r : CommandRequest}

theorem find_eq_none {s : Text} {c : Char} (h : c ∉ s) : find s c = none := by
  unfold find
  rw [List.findIdx?_eq_none_iff]
  intro x hx
  rw [decide_eq_false_iff_not]
  rintro rfl
  exact h hx

theorem find_append_cons {s s' : Text} {c : Char} (h : c ∉ s) : find (s ++ c :: s') c = some s.length := by
  have hs := find_eq_none h
  unfold find at hs ⊢
  rw [List.findIdx?_append, hs, List.findIdx?_cons, decide_eq_true rfl, if_pos rfl]
  simp

theorem findLastOf_eq_none {s : Text} {c : Char} (h : c ∉ s) : findLastOf s c = none := by
  have hs := find_eq_none fun hc => h (List.mem_reverse.mp hc)
  unfold find at hs
  rw [findLastOf, hs, Option.map_none]

theorem slash_cons_notMem {c : Char} (hc : c ≠ '/') (h : c ∉ cmd) : c ∉ '/' :: cmd := by
  rintro (_ | ⟨_, hmem⟩)
  · exact hc rfl
  · exact h hmem

/-- **The target of a URI** is the name of its command. -/
theorem parseRequestUri_target (hask : '?' ∉ cmd) (hspace : ' ' ∉ cmd) :
    (parseRequestUri lib (uriOf cmd q) r).getMetadata kRequestTarget = cmd := by
  have hkey : kRequestTarget ≠ [] := by decide
  have hask' := slash_cons_notMem (c := '?') (by decide) hask
  have hspace' := slash_cons_notMem (c := ' ') (by decide) hspace
  have hstart : find (uriOf cmd q) '/' = some 0 := by cases q <;> rfl
  have htarget : ∀ {r : CommandRequest} {params : List (Text × Text)},
      (r.addParams params).getMetadata kRequestTarget = r.getMetadata kRequestTarget := by
    intro r params
    unfold getMetadata
    rw [addParams_metadata]
  unfold parseRequestUri
  dsimp only
  rw [htarget, getMetadata_addMetadata hkey, hstart]
  dsimp only [substr]
  cases q with
  | none =>
    rw [uriOf, find_eq_none hask', findLastOf_eq_none hspace']
    exact List.take_of_length_le (Nat.le_succ _)
  | some q =>
    have hfind : find (uriOf cmd (some q)) '?' = some (cmd.length + 1) := find_append_cons hask'
    rw [hfind]
    simp [uriOf, sizeSub]

/-- The pairs of a URI are those of its query. -/
theorem parse_uriOf (hask : '?' ∉ cmd) : lib.parse (uriOf cmd q) = queryPairs lib q := by
  have hall : ∀ c ∈ '/' :: cmd, decide (c ≠ '?') = true := by
    intro c hc
    rw [decide_eq_true_eq]
    rintro rfl
    exact slash_cons_notMem (by decide) hask hc
  unfold EvhttpParseQuery.parse
  cases q with
  | none =>
    rw [uriOf, List.dropWhile_eq_nil_iff.mpr hall]
    rfl
  | some q =>
    have hdrop : (uriOf cmd (some q)).dropWhile (· ≠ '?') = '?' :: q := by
      show (('/' :: cmd) ++ '?' :: q).dropWhile _ = _
      rw [List.dropWhile_append_of_pos hall, List.dropWhile_cons_of_neg (by simp)]
    rw [hdrop]
    rfl

/-- What is read after the pairs of a URI have been added. -/
theorem parseRequestUri_parameters (hask : '?' ∉ cmd) :
    (parseRequestUri lib (uriOf cmd q) r).parameters =
      (r.addParams (queryPairs lib q)).parameters := by
  unfold parseRequestUri
  rw [parse_uriOf hask]
  exact addParams_parameters addMetadata_parameters

theorem queryPairs_key_ne_nil : ∀ p ∈ queryPairs lib q, p.1 ≠ [] := by
  cases q with
  | none => exact fun p hp => absurd hp List.not_mem_nil
  | some q => exact lib.key_ne_nil q

/-! ### The body of a POST -/

/-- A body that is not empty is copied outside of the vector. -/
theorem parsePostData_of_ne_nil {httpReq : EvhttpRequest} (h : httpReq.inputBuffer ≠ []) :
    parsePostData lib httpReq r = none := by
  have hpos := List.length_pos_of_ne_nil h
  unfold parsePostData memcpy
  dsimp only
  rw [if_neg (by rw [List.length_nil]; omega), Option.map_none]

/-- An empty body leaves `/?%`, a URI of the empty name without pairs. -/
theorem parsePostData_of_nil {httpReq : EvhttpRequest} (h : httpReq.inputBuffer = []) :
    parsePostData lib httpReq r = some (parseRequestUri lib (uriOf [] (some ['%'])) r) := by
  unfold parsePostData memcpy
  rw [h]
  rfl

/-- A POST that is parsed at all has no body; its target is empty, and its parameters are those of the
URI. -/
theorem parseHttpRequest_post {httpReq : EvhttpRequest} {request : CommandRequest}
    (hpost : httpReq.command = .post) (h : parseHttpRequest lib httpReq = some request) :
    httpReq.inputBuffer = [] ∧ request.getMetadata kRequestTarget = [] ∧
      request.parameters = (parseRequestUri lib httpReq.uri {}).parameters := by
  unfold parseHttpRequest at h
  dsimp only at h
  rw [if_pos hpost] at h
  by_cases hbody : httpReq.inputBuffer = []
  · rw [parsePostData_of_nil hbody, Option.some.injEq] at h
    refine ⟨hbody, ?_, ?_⟩
    · rw [← h]
      exact parseRequestUri_target List.not_mem_nil List.not_mem_nil
    · have hnone : queryPairs lib (some ['%']) = [] := lib.pairs_of_noEquals _ (by decide)
      rw [← h, parseRequestUri_parameters List.not_mem_nil, hnone]
      rfl
  · rw [parsePostData_of_ne_nil hbody] at h
    exact absurd h.symm (Option.some_ne_none _)

/-- Any other request is parsed from its URI alone. -/
theorem parseHttpRequest_of_ne_post {httpReq : EvhttpRequest} (h : httpReq.command ≠ .post) :
    parseHttpRequest lib httpReq = some (parseRequestUri lib httpReq.uri {}) := by
  unfold parseHttpRequest
  exact if_neg h

/-! ### GET and POST -/

/-- **Parsed as sent**: the target is the name of the command, and every pair of the query and of the form
body is a parameter, that of the form body where both have the key. -/
def ParsedAsSent (lib : EvhttpParseQuery) (cmd : Text) (q : Option Text) (f : Text)
    (command : EvhttpCmdType) : Prop :=
  ∃ request, parseHttpRequest lib ⟨uriOf cmd q, command, f⟩ = some request ∧
    request.getMetadata kRequestTarget = cmd ∧
    (∀ p ∈ queryPairs lib q, (command = .post → p.1 ∉ (lib.pairs f).map Prod.fst) →
      request.parameters.find? p.1 = some p.2) ∧
    (command = .post → ∀ p ∈ lib.pairs f, request.parameters.find? p.1 = some p.2)

/-- **When a request is parsed as sent**: unless it is a POST of a named command or with a form body, and
as far as no key of the query has two values. -/
theorem parsedAsSent_iff (lib : EvhttpParseQuery) {cmd : Text} (hask : '?' ∉ cmd) (hspace : ' ' ∉ cmd)
    (q : Option Text) (f : Text) (command : EvhttpCmdType) :
    ParsedAsSent lib cmd q f command ↔
      (command = .post → cmd = [] ∧ f = []) ∧ OneValue (queryPairs lib q) := by
  have hread : (∀ p ∈ queryPairs lib q,
      (parseRequestUri lib (uriOf cmd q) {}).parameters.find? p.1 = some p.2) ↔
        OneValue (queryPairs lib q) := by
    rw [parseRequestUri_parameters hask]
    exact addParams_iff_oneValue queryPairs_key_ne_nil
  have hform : lib.pairs [] = [] := lib.pairs_of_noEquals [] List.not_mem_nil
  rw [← hread]
  constructor
  · rintro ⟨request, hparse, htarget, hquery, -⟩
    by_cases hpost : command = .post
    · obtain ⟨rfl, hempty, hparameters⟩ := parseHttpRequest_post hpost hparse
      rw [hempty] at htarget
      refine ⟨fun _ => ⟨htarget.symm, rfl⟩, fun p hp => ?_⟩
      rw [← hparameters]
      refine hquery p hp fun _ => ?_
      rw [hform]
      exact List.not_mem_nil
    · rw [parseHttpRequest_of_ne_post hpost, Option.some.injEq] at hparse
      subst hparse
      exact ⟨fun h => absurd h hpost, fun p hp => hquery p hp fun h => absurd h hpost⟩
  · rintro ⟨hcond, hquery⟩
    by_cases hpost : command = .post
    · obtain ⟨rfl, rfl⟩ := hcond hpost
      have hparse : parseHttpRequest lib ⟨uriOf [] q, command, []⟩ = some
          (parseRequestUri lib (uriOf [] (some ['%'])) (parseRequestUri lib (uriOf [] q) {})) := by
        unfold parseHttpRequest
        dsimp only
        rw [if_pos hpost, parsePostData_of_nil rfl]
      obtain ⟨-, hempty, hparameters⟩ := parseHttpRequest_post hpost hparse
      refine ⟨_, hparse, hempty, fun p hp _ => ?_, fun _ p hp => ?_⟩
      · rw [hparameters]
        exact hquery p hp
      · rw [hform] at hp
        exact absurd hp List.not_mem_nil
    · refine ⟨_, parseHttpRequest_of_ne_post hpost, parseRequestUri_target hask hspace,
        fun p hp _ => hquery p hp, fun h => absurd h hpost⟩

/-- The query of a GET. -/
theorem parsedAsSent_iff_get :
    ParsedAsSent .oneArgument "metric".toList (some "startTime=0".toList) [] .get :=
  (parsedAsSent_iff .oneArgument (by decide) (by decide) _ _ _).mpr
    ⟨fun h => absurd h (by decide), by decide⟩

/-- The same arguments as the form body of a POST are copied outside of the vector.  Without a body the
target is lost. -/
theorem post_not_parsedAsSent :
    parseHttpRequest .oneArgument ⟨uriOf "metric".toList none, .post, "startTime=0".toList⟩ = none ∧
      ¬ ParsedAsSent .oneArgument "metric".toList none "startTime=0".toList .post ∧
      ¬ ParsedAsSent .oneArgument "metric".toList none [] .post := by
  have hnone : parseHttpRequest .oneArgument
      ⟨uriOf "metric".toList none, .post, "startTime=0".toList⟩ = none := by decide
  refine ⟨hnone, ?_, ?_⟩
  · rintro ⟨request, hparse, -⟩
    rw [hnone] at hparse
    exact absurd hparse.symm (Option.some_ne_none _)
  · rintro ⟨request, hparse, htarget, -⟩
    rw [(parseHttpRequest_post rfl hparse).2.1] at htarget
    exact absurd htarget (by decide)

/-! ### The command center -/

section Center

variable {handlerMap : Assoc Text (CommandRequest → CommandResponse)}

/-- A GET is answered by the handler of its command. -/
theorem onHttpRequest_get {handle : CommandRequest → CommandResponse} (hask : '?' ∉ cmd)
    (hspace : ' ' ∉ cmd) (hhandle : handlerMap.find? cmd = some handle) :
    onHttpRequest lib handlerMap ⟨uriOf cmd q, .get, f⟩ =
      some (handle (parseRequestUri lib (uriOf cmd q) {})) := by
  have hget : EvhttpCmdType.get ≠ .post := by decide
  unfold onHttpRequest
  rw [parseHttpRequest_of_ne_post hget, Option.map_some]
  dsimp only
  rw [parseRequestUri_target hask hspace, hhandle]

/-- **No POST is answered by a command with a name.** -/
theorem onHttpRequest_post {httpReq : EvhttpRequest} {response : CommandResponse}
    (hpost : httpReq.command = .post) (hunnamed : handlerMap.find? [] = none)
    (h : onHttpRequest lib handlerMap httpReq = some response) :
    response = .ofFailure "Unknown command: ".toList := by
  obtain ⟨request, hparse, hresponse⟩ := Option.map_eq_some_iff.mp h
  dsimp only at hresponse
  rw [(parseHttpRequest_post hpost hparse).2.1, hunnamed, List.append_nil] at hresponse
  exact hresponse.symm

end Center

end

end SentinelCpp.Transport
