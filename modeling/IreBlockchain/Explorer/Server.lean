import IreBlockchain.Foundation.Paths
import IreBlockchain.Foundation.Url

/-!
# The explorer's server

It relays what is under `/rpc/` and `/api/` to the node, and streams the files
of its own directory.
-/

namespace IreBlockchain.Explorer.Server

open IreBlockchain.Foundation

/-- The server where it is installed.  `stat` tells a file from anything else. -/
structure Host where
  directory : Path
  rpcUrl : Text
  apiUrl : Text
  stat : Path → Option Bool
  stat_directory : stat directory = some false

structure Request where
  method : Text
  url : Text

inductive Response where
  | status (code : Nat)
  | error (code : Nat) (text : Text)
  /--
  What `fetch` gets from the target: the answer there, or the 502 where it
  cannot be reached or `fetch` refuses it for its credentials or its port.
  -/
  | relay (target : Url)
  | stream (file : Path) (contentType : Text)
  deriving DecidableEq

def contentTypes : List (Text × Text) :=
  [(".css".toList, "text/css".toList), (".js".toList, "text/javascript".toList),
    (".html".toList, "text/html".toList)]

def contentType (file : Path) : Text :=
  (contentTypes.lookup file.extname).getD "application/octet-stream".toList

/-- `url.replace(/^\/(rpc|api)/, "")` -/
def stripMount (url : Text) : Text :=
  if "/rpc".toList <+: url ∨ "/api".toList <+: url then url.drop 4 else url

def proxy (hosts : HostParser) (url upstream : Text) : Response :=
  match (newUrl hosts upstream none).bind fun base =>
      newUrl hosts (stripMount url) (some base) with
  | some target => .relay target
  | none => .error 502 "The IRE node is unavailable.".toList

def relative (url : Text) : Text :=
  if url = "/".toList then "index.html".toList else url.tail

variable (hosts : HostParser) (host : Host)

namespace Host

def file (url : Text) : Path := host.directory.resolve (relative url)

def serveFile (url : Text) : Response :=
  if ¬ host.directory.text <+: (host.file url).text then .status 403
  else
    match host.stat (host.file url) with
    | none => .status 404
    | some false => .status 404
    | some true => .stream (host.file url) (contentType (host.file url))

def handle (request : Request) : Response :=
  if request.method ≠ "GET".toList then .status 405
  else if "/rpc/".toList <+: request.url then
    proxy hosts request.url host.rpcUrl
  else if "/api/".toList <+: request.url then
    proxy hosts request.url host.apiUrl
  else host.serveFile request.url

def upstream (request : Request) : Option Text :=
  if request.method ≠ "GET".toList then none
  else if "/rpc/".toList <+: request.url then some host.rpcUrl
  else if "/api/".toList <+: request.url then some host.apiUrl
  else none

end Host

variable {hosts} {host} {request : Request}

/-! ## Requests to the node -/

theorem serveFile_ne_relay (url : Text) (target : Url) :
    host.serveFile url ≠ .relay target := by
  unfold Host.serveFile
  split
  · exact nofun
  · split <;> exact nofun

theorem handle_eq_relay_iff {target : Url} :
    host.handle hosts request = .relay target ↔
      ∃ upstream, host.upstream request = some upstream ∧
        proxy hosts request.url upstream = .relay target := by
  unfold Host.handle Host.upstream
  split
  · simp
  · split
    · simp
    · split
      · simp
      · simp [serveFile_ne_relay]

theorem proxy_eq_relay_iff {url upstream : Text} {target : Url} :
    proxy hosts url upstream = .relay target ↔
      ∃ base, newUrl hosts upstream none = some base ∧
        newUrl hosts (stripMount url) (some base) = some target := by
  rw [proxy, ← Option.bind_eq_some_iff]
  split
  next found hfound => simp [hfound]
  next hnone => simp [hnone]

theorem stripMount_of_upstream {upstream : Text}
    (h : host.upstream request = some upstream) :
    ∃ rest, stripMount request.url = '/' :: rest := by
  have hmount (mount : Text) (hlength : mount.length = 4)
      (hmount : mount = "/rpc".toList ∨ mount = "/api".toList)
      (hurl : mount ++ ['/'] <+: request.url) :
      ∃ rest, stripMount request.url = '/' :: rest := by
    obtain ⟨rest, hrest⟩ := hurl
    have hstart : mount <+: request.url :=
      (List.prefix_append mount ['/']).trans ⟨rest, hrest⟩
    refine ⟨rest, ?_⟩
    rw [stripMount, if_pos (hmount.imp (· ▸ hstart) (· ▸ hstart)), ← hrest,
      List.append_assoc, List.drop_left' hlength]
    rfl
  unfold Host.upstream at h
  split at h
  · cases h
  · split at h
    next hrpc => exact hmount _ rfl (.inl rfl) hrpc
    next =>
      split at h
      next hapi => exact hmount _ rfl (.inr rfl) hapi
      next => cases h

/--
What is relayed goes to the host and port of the node exactly if the request
names no authority behind the mount, or none but the node's own.
-/
theorem relay_sameOrigin_iff (hosts : HostParser) (host : Host)
    (request : Request) :
    (∀ target, host.handle hosts request = .relay target →
      ∃ upstream base, host.upstream request = some upstream ∧
        newUrl hosts upstream none = some base ∧ target.SameOrigin base) ↔
    ∀ upstream base, host.upstream request = some upstream →
      newUrl hosts upstream none = some base →
        ∀ text authority, namedAuthority (stripMount request.url) = some text →
          parseAuthority hosts base.scheme text = some authority →
            authority.host = base.host ∧ authority.port = base.port := by
  constructor
  · intro h upstream base hupstream hbase
    obtain ⟨rest, hrest⟩ := stripMount_of_upstream hupstream
    rw [hrest, ← newUrl_sameOrigin_iff hosts rest base, ← hrest]
    intro target htarget
    obtain ⟨upstream', base', hupstream', hbase', horigin⟩ := h target
      (handle_eq_relay_iff.mpr ⟨upstream, hupstream,
        proxy_eq_relay_iff.mpr ⟨base, hbase, htarget⟩⟩)
    obtain rfl := Option.some.inj (hupstream.symm.trans hupstream')
    obtain rfl := Option.some.inj (hbase.symm.trans hbase')
    exact horigin
  · intro h target hrelay
    obtain ⟨upstream, hupstream, hproxy⟩ := handle_eq_relay_iff.mp hrelay
    obtain ⟨base, hbase, htarget⟩ := proxy_eq_relay_iff.mp hproxy
    obtain ⟨rest, hrest⟩ := stripMount_of_upstream hupstream
    refine ⟨upstream, base, hupstream, hbase, ?_⟩
    have hnamed := h upstream base hupstream hbase
    rw [hrest] at hnamed htarget
    exact (newUrl_sameOrigin_iff hosts rest base).mpr hnamed target htarget

/-! ## Files -/

/-- The request is for a file beside the directory, under a longer name. -/
def Host.ServesBeside (host : Host) (request : Request) : Prop :=
  request.method = "GET".toList ∧ host.upstream request = none ∧
    host.directory.Beside (host.file request.url) ∧
      host.stat (host.file request.url) = some true

theorem proxy_ne_stream (url upstream : Text) (file : Path) (type : Text) :
    proxy hosts url upstream ≠ .stream file type := by
  unfold proxy
  split <;> exact nofun

theorem handle_eq_stream_iff {file : Path} {type : Text} :
    host.handle hosts request = .stream file type ↔
      request.method = "GET".toList ∧ host.upstream request = none ∧
        host.serveFile request.url = .stream file type := by
  unfold Host.handle Host.upstream
  split
  next h => exact iff_of_false nofun fun hall => h hall.1
  next h =>
    rw [not_not] at h
    split
    · exact iff_of_false (proxy_ne_stream _ _ _ _) nofun
    · split
      · exact iff_of_false (proxy_ne_stream _ _ _ _) nofun
      · exact ⟨fun hserve => ⟨h, rfl, hserve⟩, fun hall => hall.2.2⟩

theorem serveFile_eq_stream_iff {url : Text} {file : Path} {type : Text} :
    host.serveFile url = .stream file type ↔
      host.directory.text <+: (host.file url).text ∧
        host.stat (host.file url) = some true ∧ file = host.file url ∧
          type = contentType (host.file url) := by
  unfold Host.serveFile
  split
  next h => simp [h]
  next h =>
    rw [not_not] at h
    split
    next hstat => simp [hstat]
    next hstat => simp [hstat]
    next hstat => simp [h, hstat, eq_comm]

/--
A streamed file lies below the directory exactly if the request is not for a
file beside it, under a name that starts with the directory's own.
-/
theorem stream_above_iff (hosts : HostParser) (host : Host)
    (request : Request) :
    (∀ file type, host.handle hosts request = .stream file type →
      host.directory.Above file) ↔ ¬ host.ServesBeside request := by
  constructor
  · rintro h ⟨hget, hupstream, hbeside, hstat⟩
    have hbegins := Path.text_prefix_iff.mpr (.inr (.inr hbeside))
    have hserve := serveFile_eq_stream_iff.mpr ⟨hbegins, hstat, rfl, rfl⟩
    exact hbeside.not_above
      (h _ _ (handle_eq_stream_iff.mpr ⟨hget, hupstream, hserve⟩))
  · intro h file type hhandle
    obtain ⟨hget, hupstream, hserve⟩ := handle_eq_stream_iff.mp hhandle
    obtain ⟨hbegins, hstat, rfl, -⟩ := serveFile_eq_stream_iff.mp hserve
    rcases Path.text_prefix_iff.mp hbegins with hsame | habove | hbeside
    · -- The directory itself is no file.
      have hself : host.file request.url = host.directory := by
        cases hfile : host.file request.url
        cases hdirectory : host.directory
        simp_all
      rw [hself, host.stat_directory] at hstat
      cases hstat
    · exact habove
    · exact absurd ⟨hget, hupstream, hbeside, hstat⟩ h

/-! ## Another host, and a file beside the directory -/

def asciiHosts : HostParser := fun text =>
  if text.all fun c => c.isAlphanum || c = '.' || c = '-' then
    some (lower text)
  else none

def namePath (names : List String) (h : (names.map String.toList).all
    (fun name => name ≠ [] && name ≠ dot && name ≠ dotDot &&
      !name.contains '/') = true) : Path :=
  ⟨names.map String.toList, by
    intro name hname
    have hcheck := List.all_eq_true.mp h name hname
    simp only [Bool.and_eq_true, decide_eq_true_eq, Bool.not_eq_true',
      List.contains_eq_mem, decide_eq_false_iff_not] at hcheck
    exact ⟨hcheck.1.1.1, hcheck.1.1.2, hcheck.1.2, hcheck.2⟩⟩

def explorerDirectory : Path := namePath ["srv", "explorer"] (by decide)

def besideFile : Path :=
  namePath ["srv", "explorer-keys", "node.key"] (by decide)

def sampleHost : Host where
  directory := explorerDirectory
  rpcUrl := "http://127.0.0.1:26657".toList
  apiUrl := "http://127.0.0.1:1317".toList
  stat path := some (path = besideFile)
  stat_directory := by decide

def nodeUrl : Url where
  scheme := .http
  username := []
  password := []
  host := "127.0.0.1".toList
  port := some 26657
  path := [[]]
  query := none
  fragment := none

def otherUrl : Url :=
  { nodeUrl with
    host := "other.example".toList, port := none, path := ["status".toList] }

theorem relay_leaves_node :
    ¬ ∀ (hosts : HostParser) (host : Host) (request : Request) (target : Url),
      host.handle hosts request = .relay target →
        ∃ upstream base, host.upstream request = some upstream ∧
          newUrl hosts upstream none = some base ∧
            target.SameOrigin base := by
  intro h
  obtain ⟨upstream, base, hupstream, hbase, horigin⟩ := h asciiHosts sampleHost
    ⟨"GET".toList, "/rpc//other.example/status".toList⟩ otherUrl
    (by decide +kernel)
  have hnode : newUrl asciiHosts sampleHost.rpcUrl none = some nodeUrl := by
    decide +kernel
  obtain rfl : sampleHost.rpcUrl = upstream := Option.some.inj hupstream
  obtain rfl := Option.some.inj (hnode.symm.trans hbase)
  exact absurd horigin.host (by decide)

theorem stream_beside_directory :
    ¬ ∀ (hosts : HostParser) (host : Host) (request : Request) (file : Path)
      (type : Text), host.handle hosts request = .stream file type →
        host.directory.Above file := by
  intro h
  have habove := h asciiHosts sampleHost
    ⟨"GET".toList, "/../explorer-keys/node.key".toList⟩ besideFile
    "application/octet-stream".toList (by decide +kernel)
  have hbeside : explorerDirectory.Beside besideFile :=
    ⟨["srv".toList], "explorer".toList, "-keys".toList, ["node.key".toList],
      by decide, by decide, by decide⟩
  exact hbeside.not_above habove

end IreBlockchain.Explorer.Server
