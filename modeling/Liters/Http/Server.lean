import Liters.Http.Mount

/-! # The server in front of a mount

The routing of the built-in server (`server.rs`): the health check, the prefix that the mount lives
under and the framing of bodies, all of them in front of the mount, whose first check is the token.
So a request without the token is refused by the mount only if it gets there: `unauthorized_iff`
says when that is. -/

namespace Liters

/-- What a server is set up with: the options of its mount, the path it is mounted under, and what
the mount shares between requests. -/
structure Server where
  opts : MountOptions
  basePath : Option String
  state : MountState

/-- A request as the server parses it, with the body it would receive. -/
structure HttpRequest where
  method : String
  path : String
  query : String
  headers : Headers
  spool : Spool

/-- What the surroundings decide: the time, how listings go, and what reads of the mount are
answered with. -/
structure ServerEnv where
  now : Nat
  listed : Except String Unit
  reads : MountState → Request → String → Response

/-- The non-empty segments of a mount path. -/
def normalizeBase (base : Option String) : List String :=
  ((splitWhen (· = '/') (base.getD "").toList).filter (· ≠ [])).map String.ofList

/-- Whether a body comes in chunks. -/
def chunked (headers : Headers) : Bool :=
  match header headers "transfer-encoding" with
  | none => false
  | some value => value.toLower = "chunked"

/-- The declared length of a body. -/
def contentLength (headers : Headers) : Option Nat :=
  (header headers "content-length").bind fun value => fromStrRadix 10 64 value.toList

/-- A PUT says how long its body is. -/
def HttpRequest.Framed (r : HttpRequest) : Prop :=
  r.method = "PUT" → chunked r.headers ∨ (contentLength r.headers).isSome

instance (r : HttpRequest) : Decidable r.Framed :=
  inferInstanceAs (Decidable (r.method = "PUT" →
    chunked r.headers ∨ (contentLength r.headers).isSome))

/-- The health check: a GET of the bare root. -/
def HttpRequest.IsHealthCheck (r : HttpRequest) : Prop := r.method = "GET" ∧ segments r.path = [""]

instance (r : HttpRequest) : Decidable r.IsHealthCheck :=
  inferInstanceAs (Decidable (r.method = "GET" ∧ segments r.path = [""]))

/-- The version line. -/
def versionLine : String := "liters 0.1.0\n"

namespace Server

/-- The path lies under the mount. -/
def UnderMount (s : Server) (r : HttpRequest) : Prop := normalizeBase s.basePath <+: segments r.path

instance (s : Server) (r : HttpRequest) : Decidable (s.UnderMount r) :=
  inferInstanceAs (Decidable (normalizeBase s.basePath <+: segments r.path))

/-- The request as the mount sees it. -/
def mountRequest (s : Server) (r : HttpRequest) : Request where
  method := r.method
  path := "/".intercalate ((segments r.path).drop (normalizeBase s.basePath).length)
  headers := r.headers

/-- Route a request: an answer, or a write that waits for the gate of the mount. -/
def route (s : Server) (env : ServerEnv) (r : HttpRequest) : Except Outcome Job :=
  if r.IsHealthCheck then .error (.answered ⟨200, versionLine⟩)
  else if ¬ s.UnderMount r then .error (.answered (.error 404 "not found"))
  else if ¬ r.Framed then
    .error (.answered (.error 411 "length required (content-length or chunked)"))
  else
    let req := s.mountRequest r
    receive s.opts ⟨s.state, env.now, env.listed⟩ req r.spool (env.reads s.state req r.query)

end Server

/-- The refusal of a request without the token. -/
def authorizationRequired : Outcome := .answered (.error 401 "authorization required")

/-- A request does not carry the token. -/
def HttpRequest.Lacks (r : HttpRequest) (token : String) : Prop :=
  authorized r.headers token = false

namespace Server

variable {s s₁ s₂ : Server} {r : HttpRequest} {token : String}

/-- The mount refuses a request without the token, whatever the request and the bucket are. -/
theorem receive_unauthorized {opts : MountOptions} (htoken : opts.authToken = some token)
    {req : Request} (hlacks : authorized req.headers token = false) (v : View) (spool : Spool)
    (answer : Response) : receive opts v req spool answer = .error authorizationRequired := by
  have hany : (opts.authToken.any fun expected => !authorized req.headers expected) = true := by
    rw [htoken, Option.any_some, hlacks]
    rfl
  unfold receive
  rw [if_pos hany]
  rfl

/-- How a request without the token is refused. -/
def refusal (s : Server) (r : HttpRequest) : Outcome :=
  if ¬ s.UnderMount r then .answered (.error 404 "not found")
  else if ¬ r.Framed then .answered (.error 411 "length required (content-length or chunked)")
  else authorizationRequired

/-- **What a request without the token is answered with**, in every state of the bucket and of its
surroundings. -/
theorem route_unauthorized (htoken : s.opts.authToken = some token) (hlacks : r.Lacks token)
    (hroot : ¬ r.IsHealthCheck) (env : ServerEnv) : s.route env r = .error (s.refusal r) := by
  unfold route refusal
  rw [if_neg hroot]
  by_cases hunder : s.UnderMount r
  · by_cases hframed : r.Framed
    · rw [if_neg (not_not.mpr hunder), if_neg (not_not.mpr hframed), if_neg (not_not.mpr hunder),
        if_neg (not_not.mpr hframed)]
      have hreq : authorized (s.mountRequest r).headers token = false := hlacks
      exact receive_unauthorized htoken hreq _ _ _
    · rw [if_neg (not_not.mpr hunder), if_pos hframed, if_neg (not_not.mpr hunder), if_pos hframed]
  · rw [if_pos hunder, if_pos hunder]

/-- An unknown path is not an authorization failure. -/
theorem not_found_ne_authorizationRequired :
    Outcome.answered (.error 404 "not found") ≠ authorizationRequired := by
  intro h
  have hstatus := congrArg Response.status (Outcome.answered.inj h)
  exact absurd hstatus (show (404 : Nat) ≠ 401 by decide)

/-- A missing length is not an authorization failure. -/
theorem length_required_ne_authorizationRequired :
    Outcome.answered (.error 411 "length required (content-length or chunked)")
      ≠ authorizationRequired := by
  intro h
  have hstatus := congrArg Response.status (Outcome.answered.inj h)
  exact absurd hstatus (show (411 : Nat) ≠ 401 by decide)

/-- A request without the token is refused as such exactly if it gets to the mount. -/
theorem route_eq_authorizationRequired_iff (htoken : s.opts.authToken = some token)
    (hlacks : r.Lacks token) (hroot : ¬ r.IsHealthCheck) (env : ServerEnv) :
    s.route env r = .error authorizationRequired ↔ s.UnderMount r ∧ r.Framed := by
  rw [route_unauthorized htoken hlacks hroot env, refusal]
  by_cases hunder : s.UnderMount r
  · by_cases hframed : r.Framed
    · rw [if_neg (not_not.mpr hunder), if_neg (not_not.mpr hframed)]
      exact iff_of_true rfl ⟨hunder, hframed⟩
    · rw [if_neg (not_not.mpr hunder), if_pos hframed]
      exact iff_of_false (fun h => length_required_ne_authorizationRequired (Except.error.inj h))
        fun h => hframed h.2
  · rw [if_pos hunder]
    exact iff_of_false (fun h => not_found_ne_authorizationRequired (Except.error.inj h))
      fun h => hunder h.1

end Server

/-- **When a peer without the token learns nothing.** Two servers have the same token, and may
differ in everything else: the path they are mounted under, whether they accept writes, what their
buckets hold. Both give a request without the token the same answer, namely that authorization is
required, exactly if its path lies under both mounts and it is no PUT without a length. Whatever the
answer is, no such request gets to the bucket: it is answered, and the answer is the same over every
other bucket and in every other surroundings. -/
theorem unauthorized_iff {s₁ s₂ : Server} {r : HttpRequest} {token : String}
    (htoken₁ : s₁.opts.authToken = some token) (htoken₂ : s₂.opts.authToken = some token)
    (hlacks : r.Lacks token) (hroot : ¬ r.IsHealthCheck) (env₁ env₂ : ServerEnv) :
    ((s₁.route env₁ r = .error authorizationRequired ∧ s₂.route env₂ r = s₁.route env₁ r) ↔
        s₁.UnderMount r ∧ s₂.UnderMount r ∧ r.Framed) ∧
      ∃ outcome, ∀ writable state env, Server.route
        ⟨{ s₁.opts with writable := writable }, s₁.basePath, state⟩ env r = .error outcome := by
  have h₁ := Server.route_eq_authorizationRequired_iff htoken₁ hlacks hroot env₁
  have h₂ := Server.route_eq_authorizationRequired_iff htoken₂ hlacks hroot env₂
  refine ⟨⟨?_, ?_⟩, s₁.refusal r, fun writable state env => Server.route_unauthorized
    (s := ⟨{ s₁.opts with writable := writable }, s₁.basePath, state⟩) htoken₁ hlacks hroot env⟩
  · rintro ⟨hfirst, hsame⟩
    obtain ⟨hunder₁, hframed⟩ := h₁.mp hfirst
    exact ⟨hunder₁, (h₂.mp (hsame.trans hfirst)).1, hframed⟩
  · rintro ⟨hunder₁, hunder₂, hframed⟩
    have hfirst := h₁.mpr ⟨hunder₁, hframed⟩
    exact ⟨hfirst, (h₂.mpr ⟨hunder₂, hframed⟩).trans hfirst.symm⟩

/-- A request for the listing of level 0, without any header. -/
def bareListing : HttpRequest := ⟨"GET", "/ltx/0", "", [], .received []⟩

/-- The path of the bare request. -/
theorem bareListing_segments : segments bareListing.path = ["ltx", "0"] := by
  simp [segments, bareListing, splitWhen]

/-- The bare request brings no token. -/
theorem bareListing_lacks (token : String) : bareListing.Lacks token := rfl

/-- The bare request is no health check. -/
theorem bareListing_not_healthCheck : ¬ bareListing.IsHealthCheck := by
  rintro ⟨-, hsegments⟩
  rw [bareListing_segments] at hsegments
  exact absurd (List.cons.inj hsegments).2 (List.cons_ne_nil _ _)

/-- A server with a token over an empty bucket. -/
def tokenServer (basePath : Option String) (writable : Bool) : Server :=
  ⟨⟨writable, some "secret", 0⟩, basePath, ⟨fun _ => [], none, 0, false⟩⟩

/-- Surroundings in which every read is answered with an empty text. -/
def quietEnv : ServerEnv := ⟨0, .ok (), fun _ _ _ => ⟨200, ""⟩⟩

/-- A read-only server and a writable one at the root: a listing without the token is refused
alike. -/
theorem unauthorized_iff_root :
    (tokenServer none false).route quietEnv bareListing = .error authorizationRequired ∧
      (tokenServer none true).route quietEnv bareListing
        = (tokenServer none false).route quietEnv bareListing := by
  have hunder : ∀ writable, (tokenServer none writable).UnderMount bareListing := by
    intro writable
    show normalizeBase none <+: _
    simp [normalizeBase, splitWhen]
  have htoken : ∀ writable, (tokenServer none writable).opts.authToken = some _ := fun _ => rfl
  exact (unauthorized_iff (htoken false) (htoken true) (bareListing_lacks _)
    bareListing_not_healthCheck
    quietEnv quietEnv).1.mpr
    ⟨hunder false, hunder true, by simp [HttpRequest.Framed, bareListing]⟩

/-- A server at the root and one under `/db`, with the same token: without the token the path
`/ltx/0` tells them apart. -/
theorem unauthorized_sees_mountPath :
    (tokenServer none false).opts.authToken = some "secret" ∧
      (tokenServer (some "/db") false).opts.authToken = some "secret" ∧
      bareListing.Lacks "secret" ∧ ¬ bareListing.IsHealthCheck ∧
      (tokenServer none false).route quietEnv bareListing = .error authorizationRequired ∧
      (tokenServer (some "/db") false).route quietEnv bareListing
        = .error (.answered (.error 404 "not found")) ∧
      (tokenServer (some "/db") false).route quietEnv bareListing
        ≠ (tokenServer none false).route quietEnv bareListing := by
  have hroot : (tokenServer none false).route quietEnv bareListing =
      .error authorizationRequired := by
    refine (Server.route_eq_authorizationRequired_iff (s := tokenServer none false) rfl
      (bareListing_lacks _) bareListing_not_healthCheck quietEnv).mpr
      ⟨?_, by simp [HttpRequest.Framed, bareListing]⟩
    show normalizeBase none <+: _
    simp [normalizeBase, splitWhen]
  have hbase : ¬ (tokenServer (some "/db") false).UnderMount bareListing := by
    show ¬ normalizeBase (some "/db") <+: segments bareListing.path
    rw [bareListing_segments]
    simp [normalizeBase, splitWhen, List.cons_prefix_cons]
  have hdb : (tokenServer (some "/db") false).route quietEnv bareListing
      = .error (.answered (.error 404 "not found")) := by
    rw [Server.route_unauthorized (s := tokenServer (some "/db") false) rfl (bareListing_lacks _)
      bareListing_not_healthCheck, Server.refusal, if_pos hbase]
  refine ⟨rfl, rfl, bareListing_lacks _, bareListing_not_healthCheck, hroot, hdb, ?_⟩
  rw [hroot, hdb]
  exact fun h => Server.not_found_ne_authorizationRequired (Except.error.inj h)

end Liters
