import Ethryx.Proxy
import Ethryx.Separated

/-!
# The routing table

* `isClPath_iff`, `containsToken_iff`: what the two tests of a request say;
* `table`: the rows of the README, in its order;
* `dispatch_table`: a request is dispatched by the first row that applies.
-/

namespace Proxy

open Http Headers Separated

/-! ## First match -/

section
variable {α : Type} {rows rest : List (Prop × α)} {a b : α}

inductive FirstMatch : List (Prop × α) → α → Prop where
  | here {guard : Prop} {a : α} {rest : List (Prop × α)} (h : guard) :
      FirstMatch ((guard, a) :: rest) a
  | next {guard : Prop} {a b : α} {rest : List (Prop × α)} (h : ¬ guard)
      (t : FirstMatch rest b) : FirstMatch ((guard, a) :: rest) b

/-- A table says one thing. -/
theorem FirstMatch.unique (h : FirstMatch rows a) (h' : FirstMatch rows b) : a = b := by
  induction h with
  | here hg =>
    cases h' with
    | here => rfl
    | next hn => exact absurd hg hn
  | next hn _ ih =>
    cases h' with
    | here hg => exact absurd hg hn
    | next _ t => exact ih t

theorem FirstMatch.skip (none : ∀ row ∈ rows, ¬ row.1) (h : FirstMatch rest a) :
    FirstMatch (rows ++ rest) a := by
  induction rows with
  | nil => exact h
  | cons row rows ih =>
    exact .next (none row List.mem_cons_self) (ih fun r hr => none r (List.mem_cons_of_mem row hr))

/-- The rows that apply agree. -/
theorem FirstMatch.of_mem {guard : Prop} (mem : (guard, a) ∈ rows) (h : guard)
    (agree : ∀ row ∈ rows, row.1 → row.2 = a) : FirstMatch (rows ++ rest) a := by
  induction rows with
  | nil => cases mem
  | cons row rows ih =>
    by_cases first : row.1
    · obtain rfl := agree row List.mem_cons_self first
      exact .here first
    · apply FirstMatch.next first
      apply ih
      · rcases List.mem_cons.mp mem with rfl | mem
        · exact absurd h first
        · exact mem
      · exact fun r hr => agree r (List.mem_cons_of_mem row hr)

end

/-! ## The tests -/

def clNames : List Bytes :=
  [Bytes.ofString "eth", Bytes.ofString "lighthouse", Bytes.ofString "prysm",
    Bytes.ofString "teku", Bytes.ofString "lodestar", Bytes.ofString "nimbus"]

/-- The first segment names a CL. -/
def ClPath (path : Bytes) : Prop :=
  ∃ segment ∈ clNames, path = 0x2f :: segment ∨ ∃ rest, path = 0x2f :: (segment ++ 0x2f :: rest)

theorem isClPath_iff (path : Bytes) : isClPath path = true ↔ ClPath path := by
  cases path with
  | nil => simp [isClPath, ClPath]
  | cons c remainder =>
    by_cases hc : c = 0x2f
    · subst hc
      have cut := take_findIdx? (c := (0x2f : UInt8)) remainder
      have segments : isClPath (0x2f :: remainder) = true ↔
          remainder.takeWhile (fun b => b != 0x2f) ∈ clNames := by
        simp only [isClPath, List.head?_cons, List.tail_cons, cut, bne_self_eq_false,
          Bool.false_eq_true, if_false]
        generalize remainder.takeWhile (fun b => b != 0x2f) = segment
        constructor
        · intro h
          split at h
          all_goals first
            | (rw [beq_iff_eq.mp h]; decide)
            | cases h
        · intro h
          simp only [clNames, List.mem_cons, List.not_mem_nil, or_false] at h
          rcases h with rfl | rfl | rfl | rfl | rfl | rfl <;> decide
      rw [segments]
      have free : ∀ segment ∈ clNames, (0x2f : UInt8) ∉ segment := by decide
      constructor
      · intro h
        refine ⟨_, h, ?_⟩
        rcases (takeWhile_eq_iff (free _ h)).mp rfl with same | ⟨rest, same⟩
        · exact Or.inl (congrArg (List.cons 0x2f) same)
        · exact Or.inr ⟨rest, congrArg (List.cons 0x2f) same⟩
      · rintro ⟨segment, h, shape⟩
        have same : remainder.takeWhile (fun b => b != 0x2f) = segment := by
          apply (takeWhile_eq_iff (free _ h)).mpr
          simpa using shape
        rw [same]
        exact h
    · simp [isClPath, ClPath, hc]

/-- Some line that is a text has the token between commas, in any case, with
white space around it. -/
def Lists (lib : Library) (headers : HeaderMap) (n : HeaderName) (token : Bytes) : Prop :=
  ∃ line ∈ headers.getAll n, (∀ b ∈ line, lib.visible b = true) ∧
    ∃ left option right, IsItem 0x2c (left ++ option ++ right) line ∧
      (∀ b ∈ left, Bytes.isWhitespace b = true) ∧ (∀ b ∈ right, Bytes.isWhitespace b = true) ∧
      Bytes.eqIgnoreAsciiCase option token = true

theorem toStr_eq_some {lib : Library} {v s : Bytes} :
    toStr lib v = some s ↔ (∀ b ∈ v, lib.visible b = true) ∧ v = s := by
  simp [toStr]

theorem containsToken_iff (lib : Library) (headers : HeaderMap) (n : HeaderName) {token : Bytes}
    (plain : (token.all fun b => !Bytes.isWhitespace b) = true) :
    containsToken lib headers n token = true ↔ Lists lib headers n token := by
  simp only [containsToken, List.any_eq_true, List.mem_flatMap, List.mem_filterMap,
    toStr_eq_some, mem_splitOn]
  constructor
  · rintro ⟨item, ⟨line, ⟨_, hl, text, rfl⟩, hi⟩, eq⟩
    obtain ⟨left, right, shape, white, white'⟩ := Bytes.trim_around item
    refine ⟨_, hl, text, left, Bytes.trim item, right, ?_, white, white', eq⟩
    rw [← shape]
    exact hi
  · rintro ⟨line, hl, text, left, option, right, hi, white, white', eq⟩
    refine ⟨_, ⟨line, ⟨line, hl, text, rfl⟩, hi⟩, ?_⟩
    rw [Bytes.trim_eq white _ white']
    · exact eq
    · intro b hb
      have same := beq_iff_eq.mp eq
      have lower : Bytes.toAsciiLowercase b ∈ token.map Bytes.toAsciiLowercase := by
        rw [← same]
        exact List.mem_map_of_mem hb
      obtain ⟨c, hc, low⟩ := List.mem_map.mp lower
      rw [← Bytes.isWhitespace_toAsciiLowercase, ← low, Bytes.isWhitespace_toAsciiLowercase]
      simpa using List.all_eq_true.mp plain c hc

/-! ## The table -/

def Probe.path : Probe → Bytes
  | .live => Bytes.ofString "/livez"
  | .ready => Bytes.ofString "/readyz"
  | .health => Bytes.ofString "/healthz"
  | .metrics => Bytes.ofString "/metrics"

def nodeHealthPath : Bytes := Bytes.ofString "/eth/v1/node/health"

def registerPath : Bytes := Bytes.ofString "/eth/v1/validator/register_validator"

section
variable (w : World) (state : AppState w.toUriSyntax) (req : Request w.toUriSyntax)

/-- The calls made and the answer. -/
abbrev Answer : Type := List (Call w.toUriSyntax) × Response

/-- GET or HEAD. -/
def Read : Prop := req.method = .get ∨ req.method = .head

def probeRows : List (Prop × Answer w) :=
  [Probe.live, .ready, .health, .metrics].map fun probe =>
    (Read w req ∧ req.uri.path = probe.path, ([], probe.response w req.method state))

def relayRows : List (Prop × Answer w) :=
  state.clMevRelayUri.toList.map fun relay =>
    (req.method = .post ∧ req.uri.path = registerPath, Outcome.respond w
      (forwardTo w state req .client relay (some (Bytes.ofString "/eth/v1/builder/validators"))))

def clRows : List (Prop × Answer w) :=
  (Read w req ∧ req.uri.path = nodeHealthPath ∧ state.mockClNodeHealth = true,
    ([], state.nodeHealth)) ::
  (relayRows w state req ++
    [(req.method = .post ∧ req.uri.path ∈ subscriptionPaths ∧ state.mockClSubscriptions = true,
      ([], jsonResponse (Bytes.ofString "\x7b\"code\":200,\"message\":\"success\"\x7d"))),
    (ClPath req.uri.path,
      Outcome.respond w (forwardTo w state req .client state.clBeaconUri none))])

def upgradeAnswer (mode : WsMode) : Answer w :=
  Outcome.respond w (route w state req (.webSocket mode))

def elRows : List (Prop × Answer w) :=
  [(req.version = .http2 ∧ req.method = .connect ∧
      req.protocol = some (Bytes.ofString "websocket"), upgradeAnswer w state req .extendedConnect),
    (Lists w.toLibrary req.headers connection (Bytes.ofString "upgrade") ∧
      Lists w.toLibrary req.headers upgrade (Bytes.ofString "websocket"),
        upgradeAnswer w state req .upgrade),
    (True, Outcome.respond w (elProxy w state req))]

/-- The rows of the README, in its order. -/
def table : List (Prop × Answer w) :=
  probeRows w state req ++ (clRows w state req ++ elRows w state req)

end

section
variable {w : World} {state : AppState w.toUriSyntax} {req : Request w.toUriSyntax}

theorem probeAt_eq_some {path : Bytes} {probe : Probe} :
    probeAt path = some probe ↔ path = probe.path := by
  constructor
  · intro h
    unfold probeAt at h
    split_ifs at h with health ready live metrics <;> cases h <;> assumption
  · rintro rfl
    cases probe <;> decide

theorem probe_rows {probe : Probe} {rest : List (Prop × Answer w)} (read : Read w req)
    (at_ : req.uri.path = probe.path) :
    FirstMatch (probeRows w state req ++ rest) ([], probe.response w req.method state) := by
  have mem : (Read w req ∧ req.uri.path = probe.path,
      (([], probe.response w req.method state) : Answer w)) ∈ probeRows w state req := by
    apply List.mem_map.mpr
    exact ⟨probe, by cases probe <;> decide, rfl⟩
  apply FirstMatch.of_mem mem ⟨read, at_⟩
  intro row hr applies
  obtain ⟨other, -, rfl⟩ := List.mem_map.mp hr
  have same : some other = some probe :=
    (probeAt_eq_some.mpr applies.2).symm.trans (probeAt_eq_some.mpr at_)
  rw [Option.some.inj same]

/-- Every special path is a path of the CL. -/
theorem special_clPath {path : Bytes}
    (h : path = nodeHealthPath ∨ path = registerPath ∨ path ∈ subscriptionPaths) :
    ClPath path := by
  rw [← isClPath_iff]
  simp only [subscriptionPaths, List.mem_cons, List.not_mem_nil, or_false] at h
  rcases h with rfl | rfl | rfl | rfl | rfl <;> decide

theorem relay_rows_none {rest : List (Prop × Answer w)} {a : Answer w}
    (other : ¬ (req.method = .post ∧ req.uri.path = registerPath)) (h : FirstMatch rest a) :
    FirstMatch (relayRows w state req ++ rest) a := by
  apply FirstMatch.skip _ h
  intro row hr
  obtain ⟨relay, -, rfl⟩ := List.mem_map.mp hr
  exact other

theorem read_iff : (req.method == .get || req.method == .head) = true ↔ Read w req := by
  simp [Read]

/-- Within the CL the last row takes what no other row does. -/
theorem cl_rows (cl : ClPath req.uri.path) {rest : List (Prop × Answer w)} :
    FirstMatch (clRows w state req ++ rest) (Outcome.respond w (clProxy w state req)) := by
  have health : ((req.method == .get || req.method == .head) &&
      req.uri.path == Bytes.ofString "/eth/v1/node/health" && state.mockClNodeHealth) = true ↔
        Read w req ∧ req.uri.path = nodeHealthPath ∧ state.mockClNodeHealth = true := by
    rw [Bool.and_eq_true, Bool.and_eq_true, read_iff, beq_iff_eq, and_assoc]
    rfl
  have subscription : (req.method == .post && state.mockClSubscriptions &&
      subscriptionPaths.contains req.uri.path) = true ↔ req.method = .post ∧
        req.uri.path ∈ subscriptionPaths ∧ state.mockClSubscriptions = true := by
    rw [Bool.and_eq_true, Bool.and_eq_true, beq_iff_eq, List.contains_iff_mem, and_assoc,
      and_comm (a := state.mockClSubscriptions = true)]
  have register : (req.method == .post &&
      req.uri.path == Bytes.ofString "/eth/v1/validator/register_validator") = true ↔
        req.method = .post ∧ req.uri.path = registerPath := by
    rw [Bool.and_eq_true, beq_iff_eq, beq_iff_eq]
    rfl
  rw [clProxy, clRows, List.cons_append, List.append_assoc]
  by_cases h : Read w req ∧ req.uri.path = nodeHealthPath ∧ state.mockClNodeHealth = true
  · rw [if_pos (health.mpr h)]
    exact .here h
  rw [if_neg (mt health.mp h)]
  apply FirstMatch.next h
  by_cases r : req.method = .post ∧ req.uri.path = registerPath
  · have apart : ¬ (req.method = .post ∧ req.uri.path ∈ subscriptionPaths ∧
        state.mockClSubscriptions = true) := by
      rw [r.2]
      rintro ⟨-, mem, -⟩
      exact absurd mem (by decide)
    rw [if_neg (mt subscription.mp apart), if_pos (register.mpr r), relayRows]
    cases state.clMevRelayUri with
    | none => exact .next apart (.here cl)
    | some relay => exact .here r
  · apply relay_rows_none r
    rw [if_neg (mt register.mp r)]
    by_cases sub : req.method = .post ∧ req.uri.path ∈ subscriptionPaths ∧
        state.mockClSubscriptions = true
    · rw [if_pos (subscription.mpr sub)]
      exact .here sub
    · rw [if_neg (mt subscription.mp sub)]
      exact .next sub (.here cl)

theorem cl_rows_none (other : ¬ ClPath req.uri.path) {rest : List (Prop × Answer w)}
    {a : Answer w} (h : FirstMatch rest a) : FirstMatch (clRows w state req ++ rest) a := by
  rw [clRows, List.cons_append, List.append_assoc]
  refine .next ?_ (relay_rows_none ?_ (.next ?_ (.next other h)))
  · rintro ⟨-, at_, -⟩
    exact other (special_clPath (Or.inl at_))
  · rintro ⟨-, at_⟩
    exact other (special_clPath (Or.inr (Or.inl at_)))
  · rintro ⟨-, at_, -⟩
    exact other (special_clPath (Or.inr (Or.inr at_)))

/-- Behind the CL, an upgrade comes before everything else. -/
theorem el_rows (other : ¬ ClPath req.uri.path) : FirstMatch (elRows w state req)
    (Outcome.respond w (route w state req (target w.toLibrary req))) := by
  have connect : (req.version == .http2 && req.method == .connect &&
      req.protocol.any fun p => p == Bytes.ofString "websocket") = true ↔
        req.version = .http2 ∧ req.method = .connect ∧
          req.protocol = some (Bytes.ofString "websocket") := by
    rw [Bool.and_eq_true, Bool.and_eq_true, beq_iff_eq, beq_iff_eq, and_assoc]
    cases req.protocol <;> simp
  have lists : isUpgradeRequest w.toLibrary req = true ↔
      Lists w.toLibrary req.headers connection (Bytes.ofString "upgrade") ∧
        Lists w.toLibrary req.headers upgrade (Bytes.ofString "websocket") := by
    rw [isUpgradeRequest, Bool.and_eq_true, containsToken_iff _ _ _ rfl,
      containsToken_iff _ _ _ rfl]
  rw [target, if_neg (mt (isClPath_iff _).mp other), WsMode.classify, elRows]
  by_cases c : req.version = .http2 ∧ req.method = .connect ∧
      req.protocol = some (Bytes.ofString "websocket")
  · rw [if_pos (connect.mpr c)]
    exact .here c
  · rw [if_neg (mt connect.mp c)]
    apply FirstMatch.next c
    by_cases l : isUpgradeRequest w.toLibrary req = true
    · rw [if_pos l]
      exact .here (lists.mp l)
    · rw [if_neg l]
      exact .next (mt lists.mpr l) (.here trivial)

theorem proxy_rows : FirstMatch (clRows w state req ++ elRows w state req)
    (Outcome.respond w (route w state req (target w.toLibrary req))) := by
  by_cases cl : ClPath req.uri.path
  · rw [target, if_pos ((isClPath_iff _).mpr cl)]
    exact cl_rows cl
  · exact cl_rows_none cl (el_rows cl)

end

theorem dispatch_rows (w : World) (state : AppState w.toUriSyntax) (req : Request w.toUriSyntax) :
    FirstMatch (table w state req) (dispatch w state req) := by
  have elsewhere (none : ∀ probe : Probe, ¬ (Read w req ∧ req.uri.path = probe.path)) :
      FirstMatch (table w state req)
        (Outcome.respond w (route w state req (target w.toLibrary req))) := by
    apply FirstMatch.skip _ proxy_rows
    intro row hr
    obtain ⟨probe, -, rfl⟩ := List.mem_map.mp hr
    exact none probe
  rw [dispatch, classifyRequest]
  by_cases read : Read w req
  · rw [if_pos (read_iff.mpr read)]
    cases at_ : probeAt req.uri.path with
    | some probe => exact probe_rows read (probeAt_eq_some.mp at_)
    | none =>
      apply elsewhere
      rintro probe ⟨-, same⟩
      rw [probeAt_eq_some.mpr same] at at_
      cases at_
  · rw [if_neg (mt read_iff.mp read)]
    apply elsewhere
    rintro probe ⟨other, -⟩
    exact read other

/-- What is done with a request is what the first row that applies says. -/
theorem dispatch_table (w : World) (state : AppState w.toUriSyntax) (req : Request w.toUriSyntax)
    (answer : Answer w) :
    FirstMatch (table w state req) answer ↔ dispatch w state req = answer := by
  constructor
  · intro h
    exact (dispatch_rows w state req).unique h
  · intro same
    rw [← same]
    exact dispatch_rows w state req

end Proxy
