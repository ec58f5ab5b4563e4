import Inferx.Gateway.QuotaGuard
import Inferx.Lib.Cut

/-!
# What is sent on

`FuncCall1`, `SkillCall` and `DirectFuncCall` cut the rest off the path of a request, make a
URI of it and unwrap that. `handle` is what becomes of a request, `Kept` what it should be:
the path that is sent on is the rest after the function or the skill, as the request has it,
and does not put a worker to sleep or wake it. `forwarded_iff` says which requests that holds for.
-/

namespace Inferx.Gateway.Forward

/-- A URI that has been read. -/
structure Uri where
  path : String
  query : Option String
  deriving DecidableEq, Repr

/-- What the handlers ask of the rest of the gateway and of the libraries. -/
structure ForwardEnv (β : Type) extends CallEnv where
  /-- `Uri::try_from` -/
  tryFrom : String → Option Uri
  /-- a path parameter without its percent signs, if that is a text -/
  decode : String → Option String
  /-- `SampleCallType` of a function is `KnowledgeBase` -/
  knowledgeBase : String → String → String → Bool
  /-- so is that of the function behind a skill -/
  skillKnowledgeBase : String → String → String → Bool
  /-- the body that `normalize_skill_request` makes for a path, if it can -/
  skillBody : String → β → Option β
  /-- the body that `NormalizeFuncRequest` makes for a path, if it can -/
  promptBody : String → β → Option β
  /-- the body of a turn of the model in `handle_skill_call_chain`, if it comes to one -/
  turnBody : β → Option β
  /-- the pod of a direct call is there and takes the connection -/
  connects : List String → Bool

/-- A request with its body, if that can be read. -/
structure ForwardReq (β : Type) extends CallReq where
  body : Option β

/-- What becomes of a request. -/
inductive Outcome where
  | refused
  | panic
  | sent (path : String)
  deriving DecidableEq, Repr

variable {β : Type} (env : ForwardEnv β) (req : ForwardReq β)

/-! ## The dispatch -/

/-- A slash before each of the pieces from the `n`-th on. -/
def remainPath (n : Nat) (parts : List String) : String :=
  (parts.drop n).foldl (fun remain part => remain ++ "/" ++ part) ""

/-- What a wildcard of a route takes: the rest without the slash before it. -/
def wildcard (n : Nat) (parts : List String) : String :=
  String.ofList ((remainPath n parts).toList.drop 1)

/-- `normalize_skill_request`: the target and the body it sets, if it sets any. -/
def normalizeSkillRequest (remain : String) (body : β) : Option (Option (String × β)) :=
  if (Strs.afterPrefix "/v1/chat/completions" remain).isSome ||
      (Strs.afterPrefix "/v1/completions" remain).isSome then
    (env.skillBody remain body).map fun body => some (remain, body)
  else some none

/-- `NormalizeFuncRequest` -/
def normalizeFuncRequest (kb : Bool) (remain : String) (body : β) : Option (Option (String × β)) :=
  if kb then (env.promptBody remain body).map fun body => some ("/v1/completions", body)
  else some none

/-- A target that makes no URI leaves the one there is. -/
def retarget (sent : Uri × β) : Option (String × β) → Uri × β
  | none => sent
  | some (target, body) => ((env.tryFrom target).getD sent.1, body)

/-- The two normalisers, one after the other. -/
def normalize (kb skill : Bool) (remain : String) (sent : Uri × β) : Option (Uri × β) :=
  match if skill then normalizeSkillRequest env remain sent.2 else some none with
  | none => none
  | some norm =>
    let sent := retarget env sent norm
    (normalizeFuncRequest env kb remain sent.2).map (retarget env sent)

/-- `dispatch_func_call`, up to the worker -/
def dispatchFuncCall (kb skill : Bool) (remain : String) : Outcome :=
  match env.tryFrom remain with
  | none => .panic
  | some uri =>
    match req.body with
    | none => .refused
    | some body =>
      if req.method = .post then
        match normalize env kb skill remain (uri, body) with
        | none => .refused
        | some sent => .sent sent.1.path
      else .sent uri.path

/-! ## The handlers -/

/-- `FuncCall1` with `funccall_dispatch_route` -/
def funcCall : Outcome :=
  match funcCall1 env.toCallEnv req.toCallReq req.parts, req.parts with
  | some _, _ :: _ :: tenant :: nameSpace :: func :: _ =>
    dispatchFuncCall env req (env.knowledgeBase tenant nameSpace func) false
      (remainPath 5 req.parts)
  | _, _ => .refused

/-- The path parameters of `SkillCall`: owner, namespace, name and the rest of the path. -/
def skillParams : Option (String × String × String × String) :=
  match req.parts with
  | _ :: _ :: owner :: nameSpace :: name :: _ :: _ =>
    match env.decode owner, env.decode nameSpace, env.decode name,
        env.decode (wildcard 5 req.parts) with
    | some owner, some nameSpace, some name, some sub => some (owner, nameSpace, name, sub)
    | _, _, _, _ => none
  | _ => none

/-- The request that goes to the dispatch: a chat goes through `handle_skill_call_chain`,
which builds one with the same path for each turn of the model. -/
def skillRequest (remain : String) : Option (ForwardReq β) :=
  if req.method = .post ∧ (Strs.afterPrefix "/v1/chat/completions" remain).isSome then
    -- its URI is made of `remain` and unwrapped, as the dispatch does it once more
    (req.body.bind env.turnBody).map fun body => { req with body := some body }
  else some req

/-- `SkillCall` -/
def skillCall : Outcome :=
  match skillParams env req with
  | none => .refused
  | some (owner, nameSpace, name, sub) =>
    if (skillDispatch env.toCallEnv req.toCallReq owner nameSpace name).isSome then
      match skillRequest env req ("/" ++ sub) with
      | none => .refused
      | some turn =>
        dispatchFuncCall env turn (env.skillKnowledgeBase owner nameSpace name) true ("/" ++ sub)
    else .refused

/-- `DirectFuncCall` with `DirectFuncCallProc` -/
def directCall : Outcome :=
  match directFuncCall req.toCallReq with
  | none => .refused
  | some _ =>
    if env.connects ((req.parts.drop 2).take 5) then
      match env.tryFrom ("http://127.0.0.1" ++ remainPath 7 req.parts) with
      | none => .panic
      | some uri => .sent uri.path
    else .refused

/-- The handlers that send a request on. -/
inductive Entry where
  | funcCall | skillCall | directCall
  deriving DecidableEq, Repr

def handle : Entry → Outcome
  | .funcCall => funcCall env req
  | .skillCall => skillCall env req
  | .directCall => directCall env req

/-! ## What should become of a request -/

/-- A path that puts a worker to sleep or wakes it, as the filter of `FuncCall1` knows one. -/
def control (path : String) : Bool :=
  (Strs.afterPrefix "/sleep" path).isSome || (Strs.afterPrefix "/wake_up" path).isSome

/-- The pieces up to the function, the skill or the pod. -/
def Entry.pieces : Entry → Nat
  | .funcCall => 5
  | .skillCall => 5
  | .directCall => 7

/-- `p` is the rest of the path of the request after the first `n` pieces. -/
def Rest (path : String) (n : Nat) (p : String) : Prop := Cut.After '/' n path.toList p.toList

/-- No panic, and what is sent on is the rest and leaves the worker awake. -/
def Kept (path : String) (n : Nat) : Outcome → Prop
  | .refused => True
  | .panic => False
  | .sent p => Rest path n p ∧ control p = false

/-- What `Uri::try_from` promises, with `legal` characters in a path and a text of no more
than `most` bytes. -/
structure HttpUri (tryFrom : String → Option Uri) (legal : Char → Bool) (most : Nat) : Prop where
  alphanum : ∀ c : Char, c.isAlphanum → legal c
  slash : legal '/'
  room : 16 ≤ most
  empty : tryFrom "" = none
  path : ∀ s : String, s.toList.head? = some '/' → s.toList.all legal → s.utf8ByteSize ≤ most →
    tryFrom s = some ⟨s, none⟩
  /-- the path ends where the query or the fragment starts -/
  pathOf : ∀ (s : String) (u : Uri), s.toList.head? = some '/' → tryFrom s = some u →
    u.path.toList = s.toList.takeWhile fun c => c != '?' && c != '#'
  authority : tryFrom "http://127.0.0.1" = some ⟨"/", none⟩
  host : ∀ s : String, s.toList.head? = some '/' → s.toList.all legal →
    ("http://127.0.0.1" ++ s).utf8ByteSize ≤ most →
    tryFrom ("http://127.0.0.1" ++ s) = some ⟨s, none⟩

/-- What decoding promises: three characters or more become one. -/
def PercentDecode (decode : String → Option String) : Prop :=
  ∀ s t, decode s = some t → t = s ∨ t.length < s.length

/-! ## The condition -/

/-- The dispatch takes the body: it can be read, and a POST can be normalised. -/
def accepts (kb skill : Bool) (remain : String) : Bool :=
  match req.body with
  | none => false
  | some body =>
    req.method != .post || (normalize env kb skill remain (⟨remain, none⟩, body)).isSome

/-- A POST for a knowledge base goes to the completions. -/
def rewrites (kb : Bool) : Bool := req.method == .post && kb

/-- The function that a path names is a knowledge base. -/
def pathKnowledgeBase : Bool :=
  match req.parts with
  | _ :: _ :: tenant :: nameSpace :: func :: _ => env.knowledgeBase tenant nameSpace func
  | _ => false

/-- The rest of the path of a skill call is made a URI with nothing decoded in it. -/
structure SkillClear (kb : Bool) (sub : String) (turn : ForwardReq β) : Prop where
  uri : (env.tryFrom ("/" ++ sub)).isSome
  raw : accepts env turn kb true ("/" ++ sub) → rewrites turn kb = false →
    sub = wildcard 5 req.parts ∧ control ("/" ++ sub) = false
  completions : accepts env turn kb true ("/" ++ sub) → rewrites turn kb = true →
    Rest req.path 5 "/v1/completions"

/-- What a request that a handler admits must meet. -/
def Clear : Entry → Prop
  | .funcCall => (funcCall1 env.toCallEnv req.toCallReq req.parts).isSome →
    6 ≤ req.parts.length ∧
      (accepts env req (pathKnowledgeBase env req) false (remainPath 5 req.parts) →
        rewrites req (pathKnowledgeBase env req) = true → Rest req.path 5 "/v1/completions")
  | .skillCall => ∀ owner nameSpace name sub turn,
    skillParams env req = some (owner, nameSpace, name, sub) →
    (skillDispatch env.toCallEnv req.toCallReq owner nameSpace name).isSome →
    skillRequest env req ("/" ++ sub) = some turn →
    SkillClear env req (env.skillKnowledgeBase owner nameSpace name) sub turn
  | .directCall => (directFuncCall req.toCallReq).isSome →
    env.connects ((req.parts.drop 2).take 5) →
    8 ≤ req.parts.length ∧ control (remainPath 7 req.parts) = false

/-! ## The rest of a path -/

variable {env req}

theorem toList_remainPath (n : Nat) (path : String) :
    (remainPath n (Strs.splitOnChar '/' path)).toList =
      Cut.joined '/' ((path.toList.splitOn '/').drop n) := by
  have hfold : ∀ (l : List (List Char)) (acc : String),
      ((l.map String.ofList).foldl (fun remain part => remain ++ "/" ++ part) acc).toList =
        acc.toList ++ Cut.joined '/' l := by
    intro l
    induction l with
    | nil =>
      intro acc
      simp [Cut.joined]
    | cons p l ih =>
      intro acc
      rw [List.map_cons, List.foldl_cons, ih]
      simp
  unfold remainPath Strs.splitOnChar
  rw [← List.map_drop, hfold]
  rfl

theorem length_parts (path : String) :
    (Strs.splitOnChar '/' path).length = (path.toList.splitOn '/').length := List.length_map _

/-- What is put together of the pieces is the rest. -/
theorem rest_remainPath {n : Nat} {path : String} (hn : 0 < n)
    (hle : n ≤ (Strs.splitOnChar '/' path).length) :
    Rest path n (remainPath n (Strs.splitOnChar '/' path)) := by
  unfold Rest
  rw [toList_remainPath]
  exact Cut.after_joined hn (length_parts path ▸ hle)

theorem rest_unique {path p q : String} {n : Nat} (hp : Rest path n p) (hq : Rest path n q) : p = q :=
  String.toList_inj.mp (Cut.after_unique hp hq)

/-- The rest starts with a slash where a piece is left. -/
theorem head_remainPath {n : Nat} {path : String} (h : n < (Strs.splitOnChar '/' path).length) :
    (remainPath n (Strs.splitOnChar '/' path)).toList.head? = some '/' := by
  rw [toList_remainPath]
  rw [length_parts] at h
  rw [List.drop_eq_getElem_cons h, Cut.joined_cons]
  rfl

/-- With no piece left there is no rest. -/
theorem remainPath_eq_empty {n : Nat} {parts : List String} (h : parts.length ≤ n) :
    remainPath n parts = "" := by
  unfold remainPath
  rw [List.drop_eq_nil_of_le h]
  rfl

/-- The filter of `FuncCall1` looks at what makes a path a control path. -/
theorem control_remainPath {n : Nat} {path p : String}
    (h : (Strs.splitOnChar '/' path)[n]? = some p) :
    control (remainPath n (Strs.splitOnChar '/' path)) = sleepsOrWakes p := by
  have hpath : (path.toList.splitOn '/').drop n =
      p.toList :: (path.toList.splitOn '/').drop (n + 1) := by
    unfold Strs.splitOnChar at h
    rw [List.getElem?_map, Option.map_eq_some_iff] at h
    obtain ⟨q, hq, rfl⟩ := h
    obtain ⟨hlt, rfl⟩ := List.getElem?_eq_some_iff.mp hq
    rw [List.drop_eq_getElem_cons hlt, String.toList_ofList]
  have hword : ∀ w : String, '/' ∉ w.toList →
      ((Strs.afterPrefix ("/" ++ w) (remainPath n (Strs.splitOnChar '/' path))).isSome = true ↔
        (Strs.afterPrefix w p).isSome = true) := by
    intro w hw
    rw [Strs.afterPrefix_isSome, Strs.afterPrefix_isSome, toList_remainPath, hpath, Cut.joined_cons,
      String.toList_append, List.cons_append]
    exact (List.cons_prefix_cons.trans (and_iff_right rfl)).trans
      (Cut.prefix_append_iff hw (Cut.joined_head _))
  unfold control sleepsOrWakes
  rw [Bool.eq_iff_iff, Bool.or_eq_true, Bool.or_eq_true]
  exact or_congr (hword "sleep" (by decide)) (hword "wake_up" (by decide))

/-! ## The dispatch of what makes a URI -/

section Dispatch

variable {legal : Char → Bool} {most : Nat}

/-- The target for a knowledge base makes a URI. -/
theorem HttpUri.completions {tryFrom : String → Option Uri} (huri : HttpUri tryFrom legal most) :
    tryFrom "/v1/completions" = some ⟨"/v1/completions", none⟩ := by
  refine huri.path _ (by decide) ?_ (le_trans (by decide) huri.room)
  rw [List.all_eq_true]
  intro c hc
  have hall : "/v1/completions".toList.all (fun d => d == '/' || d.isAlphanum) = true := by
    decide +kernel
  have hor := List.all_eq_true.mp hall c hc
  rw [Bool.or_eq_true, beq_iff_eq] at hor
  rcases hor with rfl | halpha
  · exact huri.slash
  · exact huri.alphanum c halpha

/-- The URI that comes out of the normalisers, whatever they do to the body. -/
theorem normalize_map (huri : HttpUri env.tryFrom legal most) {remain : String} {uri : Uri}
    (h : env.tryFrom remain = some uri) (kb skill : Bool) (body : β) :
    (normalize env kb skill remain (uri, body)).map (fun sent => sent.1.path) =
      if (normalize env kb skill remain (⟨remain, none⟩, body)).isSome then
        some (if kb then "/v1/completions" else uri.path)
      else none := by
  have hfunc : ∀ (u v : Uri) (b : β), u = uri →
      ((normalizeFuncRequest env kb remain b).map (retarget env (u, b))).map
        (fun sent => sent.1.path) =
      if ((normalizeFuncRequest env kb remain b).map (retarget env (v, b))).isSome then
        some (if kb then "/v1/completions" else uri.path)
      else none := by
    rintro u v b rfl
    cases kb with
    | false => rfl
    | true =>
      cases hb : env.promptBody remain b with
      | none => simp [normalizeFuncRequest, hb]
      | some b' => simp [normalizeFuncRequest, hb, retarget, huri.completions]
  cases skill with
  | false => exact hfunc uri _ body rfl
  | true =>
    simp only [normalize, if_true]
    by_cases hpath : ((Strs.afterPrefix "/v1/chat/completions" remain).isSome ||
        (Strs.afterPrefix "/v1/completions" remain).isSome) = true
    · cases hb : env.skillBody remain body with
      | none => simp [normalizeSkillRequest, hpath, hb]
      | some b =>
        simp only [normalizeSkillRequest, hpath, if_true, hb, Option.map_some, retarget, h,
          Option.getD_some]
        exact hfunc uri _ b rfl
    · simp only [normalizeSkillRequest, if_neg hpath]
      exact hfunc uri _ body rfl

/-- What the dispatch makes of a request whose rest makes a URI. -/
theorem dispatchFuncCall_eq (huri : HttpUri env.tryFrom legal most) {remain : String} {uri : Uri}
    (h : env.tryFrom remain = some uri) (kb skill : Bool) :
    dispatchFuncCall env req kb skill remain =
      if accepts env req kb skill remain then
        .sent (if rewrites req kb then "/v1/completions" else uri.path)
      else .refused := by
  unfold dispatchFuncCall accepts rewrites
  rw [h]
  cases hbody : req.body with
  | none => rfl
  | some body =>
    by_cases hpost : req.method = .post
    · have hnorm := normalize_map huri h kb skill body
      by_cases hs : (normalize env kb skill remain (⟨remain, none⟩, body)).isSome = true
      · rw [if_pos hs, Option.map_eq_some_iff] at hnorm
        obtain ⟨sent, hsent, hp⟩ := hnorm
        simp [hpost, hsent, hs, hp]
      · rw [if_neg hs, Option.map_eq_none_iff] at hnorm
        simp [hpost, hnorm, hs]
    · simp [hpost]

/-- Whether what the dispatch sends is kept, for a rest that makes a URI. -/
theorem kept_dispatch (huri : HttpUri env.tryFrom legal most) {remain path : String} {uri : Uri}
    (h : env.tryFrom remain = some uri) (kb skill : Bool) (n : Nat) :
    Kept path n (dispatchFuncCall env req kb skill remain) ↔
      (accepts env req kb skill remain → rewrites req kb = false →
        Rest path n uri.path ∧ control uri.path = false) ∧
      (accepts env req kb skill remain → rewrites req kb = true → Rest path n "/v1/completions") := by
  have hawake : control "/v1/completions" = false := by decide
  rw [dispatchFuncCall_eq huri h]
  cases accepts env req kb skill remain <;> cases rewrites req kb <;> simp [Kept, hawake]

/-- The path of a request, which has been read as one. -/
structure ReadPath (legal : Char → Bool) (most : Nat) (path : String) : Prop where
  chars : path.toList.all legal
  size : path.utf8ByteSize ≤ most

theorem Rest.exists_append {path p : String} {n : Nat} (h : Rest path n p) :
    ∃ q : String, path = q ++ p ∧ q.toList.count '/' + 1 = n := by
  obtain ⟨q, hq, hn, -⟩ := h
  refine ⟨String.ofList q, ?_, ?_⟩
  · rw [← String.toList_inj, hq, String.toList_append, String.toList_ofList]
  · rw [String.toList_ofList, hn]

theorem ReadPath.of_append {p q : String} (h : ReadPath legal most (q ++ p)) :
    ReadPath legal most p := by
  constructor
  · have hall := h.chars
    rw [String.toList_append, List.all_append, Bool.and_eq_true] at hall
    exact hall.2
  · have hsize := h.size
    rw [String.utf8ByteSize_append] at hsize
    omega

theorem ReadPath.rest {path p : String} {n : Nat} (h : ReadPath legal most path)
    (hrest : Rest path n p) : ReadPath legal most p := by
  obtain ⟨q, rfl, -⟩ := hrest.exists_append
  exact h.of_append

/-- A rest with a piece in it makes a URI with that path. -/
theorem tryFrom_remainPath (huri : HttpUri env.tryFrom legal most) {path : String}
    (hpath : ReadPath legal most path) {n : Nat} (hn : 0 < n)
    (h : n < (Strs.splitOnChar '/' path).length) :
    env.tryFrom (remainPath n (Strs.splitOnChar '/' path)) =
      some ⟨remainPath n (Strs.splitOnChar '/' path), none⟩ := by
  have hread := hpath.rest (rest_remainPath hn h.le)
  exact huri.path _ (head_remainPath h) hread.chars hread.size

end Dispatch

/-! ## The three handlers -/

section Handlers

variable {legal : Char → Bool} {most : Nat}

/-- `FuncCall1` has passed over nothing that sleeps or wakes. -/
theorem funcCall1_awake {parts : List String} {payer p : String}
    (h : funcCall1 env.toCallEnv req.toCallReq parts = some payer) (hp : parts[5]? = some p) :
    sleepsOrWakes p = false := by
  obtain ⟨a, b, ns, f, rest, rfl⟩ := funcCall1_payer h
  cases rest with
  | nil => cases hp
  | cons x rest =>
    obtain rfl : x = p := by simpa using hp
    by_contra hawake
    rw [Bool.not_eq_false] at hawake
    simp [funcCall1, hawake] at h

theorem kept_funcCall (huri : HttpUri env.tryFrom legal most)
    (hpath : ReadPath legal most req.path) :
    Kept req.path 5 (funcCall env req) ↔ Clear env req .funcCall := by
  cases hf : funcCall1 env.toCallEnv req.toCallReq req.parts with
  | none => simp [funcCall, Clear, Kept, hf]
  | some payer =>
    obtain ⟨a, b, ns, f, rest, hparts⟩ := funcCall1_payer hf
    have hcall : funcCall env req =
        dispatchFuncCall env req (pathKnowledgeBase env req) false (remainPath 5 req.parts) := by
      unfold funcCall pathKnowledgeBase
      rw [hf, hparts]
    simp only [Clear, hf, Option.isSome_some, forall_const]
    rw [hcall]
    rcases Nat.lt_or_ge 5 req.parts.length with hlen | hlen
    · have hrest : Rest req.path 5 (remainPath 5 req.parts) := rest_remainPath (by decide) hlen.le
      have hawake : control (remainPath 5 req.parts) = false := by
        have hget : req.parts[5]? = some req.parts[5] := List.getElem?_eq_getElem hlen
        exact (control_remainPath hget).trans (funcCall1_awake hf hget)
      have hread : env.tryFrom (remainPath 5 req.parts) = some ⟨remainPath 5 req.parts, none⟩ :=
        tryFrom_remainPath huri hpath (by decide) hlen
      rw [kept_dispatch huri hread]
      exact and_congr_left' ⟨fun _ => hlen, fun _ _ _ => ⟨hrest, hawake⟩⟩
    · rw [remainPath_eq_empty hlen, dispatchFuncCall, huri.empty]
      exact iff_of_false id fun h => absurd h.1 (by omega)

/-- The route of a direct call is longer than the authority that takes its place. -/
theorem host_size {path p : String} {n : Nat} (hn : 3 < n) (hrest : Rest path n p)
    {t : List Char} (hroute : path.toList = "/directfunccall/".toList ++ t) :
    ("http://127.0.0.1" ++ p).utf8ByteSize ≤ path.utf8ByteSize := by
  obtain ⟨q, rfl, hq⟩ := hrest.exists_append
  rw [String.toList_append] at hroute
  rcases List.append_eq_append_iff.mp hroute with ⟨x, hx, -⟩ | ⟨x, hx, -⟩
  · have hcount : q.toList.count '/' ≤ 2 := by
      have hle : q.toList.count '/' ≤ "/directfunccall/".toList.count '/' := by
        rw [hx, List.count_append]
        omega
      exact hle.trans (by decide)
    omega
  · obtain rfl : q = "/directfunccall/" ++ String.ofList x := by
      rw [← String.toList_inj, hx, String.toList_append, @String.toList_ofList x]
    rw [String.utf8ByteSize_append, String.utf8ByteSize_append, String.utf8ByteSize_append]
    have hhost : "http://127.0.0.1".utf8ByteSize = "/directfunccall/".utf8ByteSize := by decide
    omega

theorem kept_directCall (huri : HttpUri env.tryFrom legal most)
    (hpath : ReadPath legal most req.path)
    (hroute : routeOf req.toCallReq = some .directfunccall) :
    Kept req.path 7 (directCall env req) ↔ Clear env req .directCall := by
  cases hd : directFuncCall req.toCallReq with
  | none => simp [directCall, Clear, Kept, hd]
  | some payer =>
    by_cases hconn : env.connects ((req.parts.drop 2).take 5) = true
    swap
    · simp [directCall, Clear, Kept, hd, hconn]
    have hseven : 7 ≤ req.parts.length := by
      unfold directFuncCall at hd
      split at hd
      next hparts =>
        rw [hparts]
        simp
      next => cases hd
    have hrest : Rest req.path 7 (remainPath 7 req.parts) := rest_remainPath (by decide) hseven
    simp only [Clear, directCall, hd, Option.isSome_some, forall_const, hconn, if_true]
    rcases Nat.lt_or_ge 7 req.parts.length with hlen | hlen
    · have hread := hpath.rest hrest
      have hsize : ("http://127.0.0.1" ++ remainPath 7 req.parts).utf8ByteSize ≤ most := by
        obtain ⟨first, rest, hparts, -, hfirst, -⟩ := routeOf_spec hroute
        obtain rfl := hfirst rfl
        cases rest with
        | nil =>
          rw [hparts] at hlen
          simp at hlen
        | cons x rest =>
          obtain ⟨t, ht⟩ := Strs.eq_of_splitOnChar hparts
          refine (host_size (by decide) hrest (t := t) ?_).trans hpath.size
          rw [ht]
          rfl
      have hhead : (remainPath 7 req.parts).toList.head? = some '/' := head_remainPath hlen
      rw [huri.host _ hhead hread.chars hsize]
      exact ⟨fun h => ⟨hlen, h.2⟩, fun h => ⟨hrest, h.2⟩⟩
    · have hempty := remainPath_eq_empty hlen
      rw [hempty] at hrest ⊢
      rw [String.append_empty, huri.authority]
      refine iff_of_false (fun h => ?_) fun h => absurd h.1 (by omega)
      exact absurd (rest_unique h.1 hrest) (by decide)

/-- `SkillCall` puts back the slash before the wildcard. -/
theorem slash_wildcard {n : Nat} {path : String} (h : n < (Strs.splitOnChar '/' path).length) :
    "/" ++ wildcard n (Strs.splitOnChar '/' path) = remainPath n (Strs.splitOnChar '/' path) := by
  obtain ⟨l, hl⟩ := List.head?_eq_some_iff.mp (head_remainPath h)
  unfold wildcard
  rw [← String.toList_inj, String.toList_append, hl, List.drop_one, List.tail_cons,
    @String.toList_ofList l]
  rfl

theorem head_slash (s : String) : ("/" ++ s).toList.head? = some '/' := by
  rw [String.toList_append]
  rfl

theorem skillParams_sub {owner nameSpace name sub : String}
    (h : skillParams env req = some (owner, nameSpace, name, sub)) :
    5 < req.parts.length ∧ env.decode (wildcard 5 req.parts) = some sub := by
  unfold skillParams at h
  split at h
  next a b o n f x rest hparts =>
    split at h
    next hsub =>
      cases h
      refine ⟨?_, hsub⟩
      rw [hparts]
      simp
    next => cases h
  next => cases h

/-- What is decoded and sent on is the rest only when there was nothing to decode. -/
theorem sub_eq_of_rest (huri : HttpUri env.tryFrom legal most) (hdecode : PercentDecode env.decode)
    {sub raw path : String} {uri : Uri} (hsub : env.decode raw = some sub)
    (hraw : Rest path 5 ("/" ++ raw)) (h : env.tryFrom ("/" ++ sub) = some uri)
    (hrest : Rest path 5 uri.path) : sub = raw := by
  have hcut := huri.pathOf ("/" ++ sub) uri (head_slash sub) h
  rw [rest_unique hrest hraw] at hcut
  have hlen : ("/" ++ raw).length ≤ ("/" ++ sub).length := by
    rw [← String.length_toList, hcut, ← String.length_toList]
    exact (List.takeWhile_prefix _).length_le
  rw [String.length_append, String.length_append] at hlen
  exact (hdecode raw sub hsub).resolve_right (by omega)

theorem kept_skillCall (huri : HttpUri env.tryFrom legal most) (hdecode : PercentDecode env.decode)
    (hpath : ReadPath legal most req.path) :
    Kept req.path 5 (skillCall env req) ↔ Clear env req .skillCall := by
  cases hp : skillParams env req with
  | none => simp [skillCall, Clear, Kept, hp]
  | some params =>
    obtain ⟨owner, nameSpace, name, sub⟩ := params
    by_cases hskill :
      (skillDispatch env.toCallEnv req.toCallReq owner nameSpace name).isSome = true
    swap
    · refine iff_of_true (by simp [skillCall, Kept, hp, hskill]) ?_
      intro owner' nameSpace' name' sub' turn hp' hskill'
      cases hp.symm.trans hp'
      exact absurd hskill' hskill
    cases ht : skillRequest env req ("/" ++ sub) with
    | none =>
      refine iff_of_true (by simp [skillCall, Kept, hp, hskill, ht]) ?_
      intro owner' nameSpace' name' sub' turn hp' _ ht'
      cases hp.symm.trans hp'
      cases ht.symm.trans ht'
    | some turn =>
      obtain ⟨hlen, hsub⟩ := skillParams_sub hp
      have hraw : Rest req.path 5 ("/" ++ wildcard 5 req.parts) :=
        (slash_wildcard hlen).symm ▸ rest_remainPath (by decide) hlen.le
      have hclear : Clear env req .skillCall ↔
          SkillClear env req (env.skillKnowledgeBase owner nameSpace name) sub turn := by
        constructor
        · exact fun h => h owner nameSpace name sub turn hp hskill ht
        · intro h owner' nameSpace' name' sub' turn' hp' _ ht'
          cases hp.symm.trans hp'
          cases ht.symm.trans ht'
          exact h
      have hcall : skillCall env req =
          dispatchFuncCall env turn (env.skillKnowledgeBase owner nameSpace name) true
            ("/" ++ sub) := by
        simp only [skillCall, hp, hskill, if_true, ht]
      rw [hclear, hcall]
      cases huriOf : env.tryFrom ("/" ++ sub) with
      | none =>
        rw [dispatchFuncCall, huriOf]
        refine iff_of_false id fun h => ?_
        have hsome := h.uri
        rw [huriOf] at hsome
        cases hsome
      | some uri =>
        rw [kept_dispatch huri huriOf]
        constructor
        · rintro ⟨hkeep, hcompletions⟩
          refine ⟨by rw [huriOf]; rfl, fun haccept hplain => ?_, hcompletions⟩
          obtain ⟨hrest, hawake⟩ := hkeep haccept hplain
          have heq := sub_eq_of_rest huri hdecode hsub hraw huriOf hrest
          rw [rest_unique hrest hraw, ← heq] at hawake
          exact ⟨heq, hawake⟩
        · rintro ⟨-, hkeep, hcompletions⟩
          refine ⟨fun haccept hplain => ?_, hcompletions⟩
          obtain ⟨rfl, hawake⟩ := hkeep haccept hplain
          have hread := hpath.rest hraw
          have hsame := huri.path _ (head_slash _) hread.chars hread.size
          rw [huriOf] at hsame
          obtain rfl := Option.some.inj hsame
          exact ⟨hraw, hawake⟩

/-- **What is sent on.** A handler neither panics nor sends on anything but the rest of the
path, and lets no control path through, exactly for the requests that are clear: a call of a
function has a piece after the function, a direct call has one after the pod and is not for a
control path, a skill call decodes to what it was and is not for a control path either, and
a POST that is rewritten for a knowledge base asked for the completions. -/
theorem forwarded_iff (huri : HttpUri env.tryFrom legal most) (hdecode : PercentDecode env.decode)
    (hpath : ReadPath legal most req.path) (entry : Entry)
    (hroute : entry = .directCall → routeOf req.toCallReq = some .directfunccall) :
    Kept req.path entry.pieces (handle env req entry) ↔ Clear env req entry := by
  cases entry with
  | funcCall => exact kept_funcCall huri hpath
  | skillCall => exact kept_skillCall huri hdecode hpath
  | directCall => exact kept_directCall huri hpath (hroute rfl)

end Handlers

/-! ## A gateway that forwards -/

/-- The characters of a path. -/
def pathChar (c : Char) : Bool :=
  let n := c.toNat
  n == 0x21 || (0x24 ≤ n && n ≤ 0x3B) || n == 0x3D || (0x40 ≤ n && n ≤ 0x5F) ||
    (0x61 ≤ n && n ≤ 0x7A) || n == 0x7C || n == 0x7E || c == '"' || c == '\x7b' || c == '\x7d'

/-- The path and the query of a text. -/
def pathAndQuery (s : String) : Option Uri :=
  let path := s.toList.takeWhile fun c => c != '?' && c != '#'
  if path.all pathChar && s.utf8ByteSize ≤ 65534 then
    some ⟨String.ofList path, (Strs.afterPrefix "?" (String.ofList (s.toList.drop path.length))).map
      fun q => String.ofList (q.toList.takeWhile (· != '#'))⟩
  else none

/-- `Uri::try_from` on the texts that the handlers build. -/
def uriTryFrom (s : String) : Option Uri :=
  if s.toList.head? = some '/' then pathAndQuery s
  else match Strs.afterPrefix "http://127.0.0.1" s with
    | some p => if p = "" then some ⟨"/", none⟩ else pathAndQuery p
    | none => none

theorem pathAndQuery_legal {s : String} (hall : s.toList.all pathChar)
    (hsize : s.utf8ByteSize ≤ 65534) : pathAndQuery s = some ⟨s, none⟩ := by
  have hstop : ∀ c ∈ s.toList, (c != '?' && c != '#') = true := by
    intro c hc
    have hlegal := List.all_eq_true.mp hall c hc
    by_contra hneg
    have hor : c = '?' ∨ c = '#' := by
      by_contra hne
      simp_all
    rcases hor with rfl | rfl <;> exact absurd hlegal (by decide)
  have htake : (s.toList.takeWhile fun c => c != '?' && c != '#') = s.toList :=
    List.takeWhile_eq_self_iff.mpr hstop
  unfold pathAndQuery
  rw [htake]
  simp only [hall, hsize, decide_true, Bool.and_self, if_true, String.ofList_toList,
    List.drop_length]
  rfl

theorem uriTryFrom_slash {s : String} (h : s.toList.head? = some '/') :
    uriTryFrom s = pathAndQuery s := if_pos h

theorem uriTryFrom_host {p : String} :
    uriTryFrom ("http://127.0.0.1" ++ p) = if p = "" then some ⟨"/", none⟩ else pathAndQuery p := by
  have hhead : ("http://127.0.0.1" ++ p).toList.head? ≠ some '/' := by
    rw [String.toList_append]
    exact fun h => nomatch h
  unfold uriTryFrom
  rw [if_neg hhead, Strs.afterPrefix_eq_some.mp rfl]

theorem uriTryFrom_http : HttpUri uriTryFrom pathChar 65534 where
  alphanum c h := by
    simp only [Char.isAlphanum, Char.isAlpha, Char.isUpper, Char.isLower, Char.isDigit,
      Bool.or_eq_true, Bool.and_eq_true, decide_eq_true_eq, ge_iff_le, UInt32.le_iff_toNat_le,
      Char.reduceVal, UInt32.reduceToNat, Char.toNat_val] at h
    simp only [pathChar, Bool.or_eq_true, Bool.and_eq_true, beq_iff_eq, decide_eq_true_eq]
    omega
  slash := by decide
  room := by decide
  empty := by decide
  path s hhead hall hsize := (uriTryFrom_slash hhead).trans (pathAndQuery_legal hall hsize)
  pathOf s u hhead h := by
    rw [uriTryFrom_slash hhead, pathAndQuery] at h
    split at h
    · cases h
      exact String.toList_ofList
    · cases h
  authority := by decide +kernel
  host s hhead hall hsize := by
    have hne : s ≠ "" := by
      rintro rfl
      cases hhead
    rw [uriTryFrom_host, if_neg hne]
    refine pathAndQuery_legal hall ?_
    rw [String.utf8ByteSize_append] at hsize
    omega

/-- A gateway with a function of `acme`, its pod and no skill. -/
def acmeEnv : ForwardEnv Unit where
  toCallEnv := overEnv
  tryFrom := uriTryFrom
  decode s := if '%' ∈ s.toList then none else some s
  knowledgeBase _ _ _ := false
  skillKnowledgeBase _ _ _ := false
  skillBody _ body := some body
  promptBody _ body := some body
  turnBody body := some body
  connects _ := true

def acmeReq (path : String) : ForwardReq Unit where
  toCallReq := acmeCall path
  body := some ()

theorem acmeEnv_decode : PercentDecode acmeEnv.decode := by
  intro s t h
  change (if '%' ∈ s.toList then none else some s) = some t at h
  split at h
  · cases h
  · exact .inl (Option.some.inj h).symm

theorem kept_sample :
    Kept "/funccall/acme/prod/f/v1/models" 5
      (handle acmeEnv (acmeReq "/funccall/acme/prod/f/v1/models") .funcCall) := by
  have hpath : ReadPath pathChar 65534 (acmeReq "/funccall/acme/prod/f/v1/models").path :=
    ⟨by decide +kernel, by decide +kernel⟩
  refine (forwarded_iff uriTryFrom_http acmeEnv_decode hpath .funcCall nofun).mpr fun _ => ?_
  exact ⟨by decide +kernel, fun _ h => absurd h (by decide +kernel)⟩

/-- A call of a function with nothing after it panics; a direct call puts a worker to sleep. -/
theorem panics_and_sleeps :
    ¬ Kept "/funccall/acme/prod/f" 5
      (handle acmeEnv (acmeReq "/funccall/acme/prod/f") .funcCall) ∧
    ¬ Kept "/directfunccall/acme/prod/f/1/7/sleep" 7
      (handle acmeEnv (acmeReq "/directfunccall/acme/prod/f/1/7/sleep") .directCall) := by
  have hpanic : handle acmeEnv (acmeReq "/funccall/acme/prod/f") .funcCall = .panic := by
    decide +kernel
  have hsleep : handle acmeEnv (acmeReq "/directfunccall/acme/prod/f/1/7/sleep") .directCall =
      .sent "/sleep" := by decide +kernel
  rw [hpanic, hsleep]
  exact ⟨id, fun h => absurd h.2 (by decide +kernel)⟩

end Inferx.Gateway.Forward
