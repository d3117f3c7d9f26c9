import PdGuard.Controller.Dto
import PdGuard.Controller.ProxyHandler
import PdGuard.Sample

namespace PdGuard.Sample

mutual

def value : ℕ → Str → Option (Json × Str)
  | _ + 1, '"' :: s =>
    some (.str (s.takeWhile (· ≠ '"')), (s.dropWhile (· ≠ '"')).tail)
  | fuel + 1, '[' :: s => (items fuel s).map fun (vs, s) => (.arr vs, s)
  | fuel + 1, '\x7b' :: s => (fields fuel s).map fun (fs, s) => (.obj fs, s)
  | _, _ => none

def items : ℕ → Str → Option (List Json × Str)
  | _ + 1, ']' :: s => some ([], s)
  | fuel + 1, ',' :: s => items fuel s
  | fuel + 1, s => do
    let (v, s) ← value fuel s
    let (vs, s) ← items fuel s
    return (v :: vs, s)
  | 0, _ => none

def fields : ℕ → Str → Option (List (Str × Json) × Str)
  | _ + 1, '\x7d' :: s => some ([], s)
  | fuel + 1, ',' :: s => fields fuel s
  | fuel + 1, '"' :: s => do
    let (v, rest) ← value fuel ((s.dropWhile (· ≠ '"')).drop 2)
    let (fs, rest) ← fields fuel rest
    return ((s.takeWhile (· ≠ '"'), v) :: fs, rest)
  | _, _ => none

end

mutual

def print : Json → Str
  | .null => "null".toList
  | .bool b => (toString b).toList
  | .num text => text.toList
  | .str s => '"' :: (s ++ ['"'])
  | .arr vs => '[' :: (Unicode.join [','] (printItems vs) ++ [']'])
  | .obj fs => '\x7b' :: (Unicode.join [','] (printFields fs) ++ ['\x7d'])

def printItems : List Json → List Str
  | [] => []
  | v :: vs => print v :: printItems vs

def printFields : List (Str × Json) → List Str
  | [] => []
  | (k, v) :: fs => ('"' :: (k ++ ['"', ':'] ++ print v)) :: printFields fs

end

def decodeUtf8 : Bytes → Str
  | a :: b :: rest =>
    if a < 128 then Char.ofNat a.toNat :: decodeUtf8 (b :: rest)
    else Char.ofNat (a.toNat % 32 * 64 + b.toNat % 64) :: decodeUtf8 rest
  | [a] => [Char.ofNat a.toNat]
  | [] => []

@[reducible] def json : JsonCodec where
  parse b := (value b.length (decodeUtf8 b)).map (·.1)
  print v := Http.toBytes (print v)

def field (fs : List (Str × Json)) (name : String) : Option Json :=
  (fs.find? fun f => f.1 = name.toList).map (·.2)

def optField (fs : List (Str × Json)) (name : String) : Option (Option Str) :=
  match field fs name with
  | none | some .null => some none
  | some (.str s) => some (some s)
  | some _ => none

def strItems : List Json → Option (List Str)
  | [] => some []
  | .str s :: vs => (strItems vs).map (s :: ·)
  | _ => none

def numText (n : ℕ) : Json := .num (toString n)

def decimal (q : ℚ) : Json :=
  let n := ⌊q * 10⌋.toNat
  .num (toString (n / 10) ++ "." ++ toString (n % 10))

def strText (s : String) : Json := .str s.toList

def orNull (s : Option String) : Json := (s.map strText).getD .null

def entityJson (e : EntityDto) : Json :=
  .obj [("type".toList, strText e.type), ("start".toList, numText e.start),
    ("end".toList, numText e.stop), ("masked_start".toList, numText e.maskedStart),
    ("masked_end".toList, numText e.maskedEnd), ("replacement".toList, .str e.replacement),
    ("score".toList, decimal e.score), ("source".toList, strText e.source)]

def itemJson (i : BatchItem) : Json :=
  .obj [("index".toList, numText i.index), ("session_id".toList, strText i.sessionId),
    ("text".toList, .str i.text), ("entities".toList, .arr (i.entities.map entityJson)),
    ("degraded".toList, .bool i.degraded), ("mask_context".toList, orNull i.maskContext),
    ("error".toList, orNull i.error)]

@[reducible] def dto : Dto where
  processRequest b :=
    match json.parse b with
    | some (.obj fs) => do
      let operation ← optField fs "operation"
      let payload ← optField fs "payload"
      let payloadId ← optField fs "payload_id"
      let sessionId ← optField fs "session_id"
      let maskContext ← optField fs "mask_context"
      let text ← optField fs "text"
      let route ← optField fs "route"
      let dryRun ← match field fs "dry_run" with
        | none => some false
        | some (.bool b) => some b
        | some _ => none
      return ⟨operation.map String.ofList, payload, payloadId.map String.ofList,
        sessionId.map String.ofList, maskContext.map String.ofList, text,
        route.map String.ofList, dryRun⟩
    | _ => none
  batchRequest b :=
    match json.parse b with
    | some (.obj fs) => do
      let operation ← (← optField fs "operation")
      let texts ← match field fs "texts" with
        | none => some []
        | some (.arr vs) => strItems vs
        | some _ => none
      let route ← optField fs "route"
      return ⟨String.ofList operation, texts, route.map String.ofList⟩
    | _ => none
  maskResponse r := json.print (.obj [("request_id".toList, strText r.requestId),
    ("session_id".toList, strText r.sessionId), ("text".toList, .str r.text),
    ("entities".toList, .arr (r.entities.map entityJson)), ("degraded".toList, .bool r.degraded),
    ("mask_context".toList, orNull r.maskContext),
    ("stats".toList, .obj [("tokens".toList, numText r.stats.tokens),
      ("latency_ms".toList, decimal r.stats.latencyMs)])])
  demaskResponse r := json.print (.obj [("request_id".toList, strText r.requestId),
    ("session_id".toList, strText r.sessionId), ("text".toList, .str r.text),
    ("restored".toList, numText r.restored), ("unresolved".toList, numText r.unresolved),
    ("degraded".toList, .bool r.degraded)])
  tzResponse r := json.print (.obj [("result".toList, .str r.result)])
  batchResponse r := json.print (.obj [("request_id".toList, strText r.requestId),
    ("results".toList, .arr (r.results.map itemJson))])

def contents : List Str := ["$.messages[*].content".toList]

def messages (texts : List String) : Json :=
  .obj [("messages".toList, .arr (texts.map fun t => .obj [("content".toList, .str t.toList)]))]

def host : Host where
  envVar _ := none
  readFile _ := .error "no such file"
  regexNew _ := .error "no patterns"
  regexSetNew _ := .error "no patterns"
  contextWords _ := .ok ()

def profile : Config.ProfileConfig where
  types := [⟨.fio, ⟨none, none, none, none⟩⟩].toAList
  ner := ⟨true, [.fio], some "fail"⟩
  filters := []
  combination := ⟨∅, 0, []⟩
  ambiguousIds := none
  demask := none

/-- The digest on file is that of the key "k". -/
def system (enabled : Bool) : Config.SystemConfig where
  enabled := enabled
  keySha256 := "00006b".toList
  profile := "names"
  demask := true
  rateLimitRps := none
  overrides := none
  routeOverrides := ∅

def route (id path : String) (action : Option String) (systems : List String) :
    Config.RouteConfig where
  id := id
  routeMatch := ⟨"POST", path.toList, [], ∅⟩
  upstream := "llm"
  request := ⟨contents, none, ∅⟩
  response := ⟨true, []⟩
  action := action
  systems := systems

def config (defaultAction : String) : Config where
  server := ⟨1000, 1000, 10, 65536⟩
  security := ⟨"secret".toList, [], "x-api-key", "x-system-id", ""⟩
  vault := ⟨"memory", false⟩
  ner := ⟨"disabled", ⟨[], 300⟩, 64, [], ⟨1 / 2, 20, 10⟩⟩
  resources := ⟨[], [], [], [], [], [], []⟩
  pdTypes := [⟨.fio, ⟨"ФИО".toList, 0, 0, none⟩⟩].toAList
  profiles := [⟨"names", profile⟩].toAList
  defaults := ⟨"names", settings.placeholderFormat, defaultAction⟩
  systems := [⟨"a", system true⟩, ⟨"b", system false⟩].toAList
  upstreams := [⟨"llm", ⟨"http://llm".toList, "", [], 1000, []⟩⟩].toAList
  routes := [route "chat" "/chat" none [], route "raw" "/raw" (some "bypass") ["a"]]

def client : HttpLlmClient where
  upstreams := (config "mask").upstreams.lookup

def request (systemId path : String) (body : Bytes) : HttpRequest where
  method := "POST"
  path := path.toList
  query := none
  headers := [("x-system-id", Http.toBytes systemId.toList), ("x-api-key", Http.toBytes ['k'])]
  body := some body

def initial : ProxyState := ⟨fun _ => none, fun _ => none, fun _ => none⟩

def net : Net where
  startMs := 0
  endMs := 0
  remainingMs := 1
  parseUri _ := .ok ()
  buildError := ""
  exchange _ _ := .answered 200 [] (.ok [])

def surroundings : Surroundings where
  requestId := "r"
  sessionId := "s"
  now := 0
  deadline := 1
  mask _ := outside
  demask _ := outside
  net := net

section

attribute [local instance] tables cipher

def compiled (defaultAction : String) : CompiledConfig :=
  (Loader.compile host (config defaultAction)).toOption.get rfl

theorem compile_config (defaultAction : String) :
    Loader.compile host (config defaultAction) = .ok (compiled defaultAction) := rfl

def proxy (defaultAction : String) : ProxyHandler :=
  ProxyHandler.start (compiled defaultAction)
    (GuardService.start { settings with ner := some ⟨"ner"⟩ }) (some client)

end

end PdGuard.Sample
