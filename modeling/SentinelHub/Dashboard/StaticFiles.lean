import SentinelHub.Broker.Protocol
import SentinelHub.Support.PosixPath

/-!
# Static files

Requests that are for nothing else are answered with a file from `STATIC_DIR`.
The path of the request is what `urlparse` makes of it, is joined to
`STATIC_DIR` and normalised, and has to begin with `STATIC_DIR` as a text.
-/

namespace SentinelHub.Dashboard

open Support Broker

/-! ## The path of a request -/

/-- The front of `urlsplit`: no control characters or spaces before the url, and
no tabs and line ends in it. -/
def cleanUrl (url : List Char) : List Char :=
  (url.dropWhile fun c => c.toNat ≤ 0x20).filter fun c =>
    c != '\t' && c != '\r' && c != '\n'

/-- The scheme, in lower case, and what is behind it. -/
def splitScheme (url : List Char) : List Char × List Char :=
  let scheme := url.takeWhile (· ≠ ':')
  match scheme, url.dropWhile (· ≠ ':') with
  | c :: _, _ :: rest =>
      if c.isAlpha ∧ scheme.all fun c => c.isAlphanum || "+-.".toList.contains c
      then (scheme.map Char.toLower, rest)
      else ([], url)
  | _, _ => ([], url)

/-- `_splitnetloc`, behind two slashes. -/
def splitNetloc (url : List Char) : List Char × List Char :=
  let inside (c : Char) : Bool := !"/?#".toList.contains c
  match url with
  | '/' :: '/' :: rest => (rest.takeWhile inside, rest.dropWhile inside)
  | _ => ([], url)

/-- `uses_params`. -/
def usesParams : List String :=
  ["", "ftp", "hdl", "prospero", "http", "imap", "https", "shttp", "rtsp",
    "rtsps", "rtspu", "sip", "sips", "mms", "sftp", "tel"]

/-- `_splitparams`: the parameters begin with the first semicolon behind the
last slash. -/
def splitParams (url : List Char) : List Char :=
  let segment := (url.reverse.takeWhile (· ≠ '/')).reverse
  url.take (url.length - segment.length) ++ segment.takeWhile (· ≠ ';')

/-- `urlparse(path).path`, or `none` for `ValueError`.  The checks of a netloc
that need addresses or the normal forms of Unicode are left to `netlocOk`. -/
def urlPath (netlocOk : List Char → Bool) (path : List Char) :
    Option (List Char) :=
  let (scheme, url) := splitScheme (cleanUrl path)
  let (netloc, url) := splitNetloc url
  if netloc.contains '[' != netloc.contains ']' ||
      (!netloc.isEmpty && !netlocOk netloc) then none
  else
    let url := (url.takeWhile (· ≠ '#')).takeWhile (· ≠ '?')
    if usesParams.contains (String.ofList scheme) then some (splitParams url)
    else some url

example : urlPath (fun _ => true) "/a/b;c?d#e".toList = some "/a/b".toList := by
  decide +kernel

/-! ## Files -/

/-- A file, which may be unreadable, or a directory. -/
inductive Node
  | file (content : Option Bytes)
  | dir (entries : List (List Char × Node))

/-- What there is under a sequence of names. -/
def Node.find (node : Node) : List (List Char) → Option Node
  | [] => some node
  | name :: names =>
      match node with
      | .file _ => none
      | .dir entries =>
          match entries.lookup name with
          | none => none
          | some node => node.find names

/-- What there is under a normalised absolute path.  A path with a zero
character in it names nothing. -/
def lookupPath (tree : Node) (path : List Char) : Option Node :=
  if path.contains (Char.ofNat 0) then none
  else tree.find ((path.splitOn '/').filter fun c => !c.isEmpty)

/-! ## The answer -/

/-- The three answers of the static branch. -/
inductive StaticAnswer
  | notFound
  | serverError
  | found (filepath : List Char) (contentType : String) (content : Bytes)
  deriving DecidableEq, Repr

/-- `content_types.get(ext, "application/octet-stream")`. -/
def contentType (ext : List Char) : String :=
  ([(".html", "text/html"), (".css", "text/css"),
    (".js", "application/javascript"), (".png", "image/png"),
    (".ico", "image/x-icon")].lookup (String.ofList ext)).getD
      "application/octet-stream"

/-- `os.path.normpath(os.path.join(STATIC_DIR, url_path.lstrip("/")))`. -/
def filepathOf (staticDir url : List Char) : List Char :=
  let url := if url = ['/'] then "/index.html".toList else url
  Posix.normpath (Posix.join staticDir (url.dropWhile (· = '/')))

/-- The static branch, on what is left of the path. -/
def serveStatic (staticDir : List Char) (tree : Node) (url : List Char) :
    StaticAnswer :=
  let filepath := filepathOf staticDir url
  if !staticDir.isPrefixOf filepath then .notFound
  else
    match lookupPath tree filepath with
    | none => .notFound
    | some (.dir _) => .serverError
    | some (.file none) => .serverError
    | some (.file (some content)) =>
        .found filepath (contentType (Posix.extension filepath)) content

/-- The static branch, on the path of the request line. -/
def answerStatic (netlocOk : List Char → Bool) (staticDir : List Char)
    (tree : Node) (path : List Char) : Option StaticAnswer :=
  (urlPath netlocOk path).map (serveStatic staticDir tree)

/-! ## Confinement -/

/-- The file is inside the directory: its path goes on where the directory
ends. -/
def Inside (dir filepath : List Char) : Prop :=
  ∃ d p : Posix.AbsPath, d.text = dir ∧ p.text = filepath ∧ p.IsBelow d

/-- What is answered to the request is inside the directory. -/
def Confined (answer : Option StaticAnswer) (dir : List Char) : Prop :=
  ∀ filepath ctype content,
    answer = some (.found filepath ctype content) → Inside dir filepath

/-- The path leads to a readable file that is, or is below, a sibling of the
directory whose name goes on behind the name of the directory. -/
def LeadsBeside (netlocOk : List Char → Bool) (dir : List Char) (tree : Node)
    (path : List Char) : Prop :=
  ∃ url d p content, urlPath netlocOk path = some url ∧
    d.text = dir ∧ p.text = filepathOf dir url ∧
      Posix.AbsPath.IsBeside p d ∧
        lookupPath tree p.text = some (.file (some content))

variable {netlocOk : List Char → Bool} {dir path url filepath : List Char}
  {tree : Node} {ctype : String} {content : Bytes}

theorem serveStatic_eq_found
    (h : serveStatic dir tree url = .found filepath ctype content) :
    filepath = filepathOf dir url ∧ dir <+: filepathOf dir url ∧
      lookupPath tree (filepathOf dir url) = some (.file (some content)) := by
  rw [serveStatic] at h
  split at h
  · cases h
  next hbegins =>
    have hbegins : dir <+: filepathOf dir url := by simpa using hbegins
    split at h
    · cases h
    · cases h
    · cases h
    next content' hlookup =>
      cases h
      exact ⟨rfl, hbegins, hlookup⟩

theorem head?_dropWhile_slash (url : List Char) :
    (url.dropWhile (· = '/')).head? ≠ some '/' := by
  intro h
  have hnot := List.head?_dropWhile_not (fun c => decide (c = '/')) url
  rw [h] at hnot
  simp at hnot

/-- Where a path leads, in names. -/
theorem exists_filepathOf (d : Posix.AbsPath) (url : List Char) :
    ∃ p : Posix.AbsPath, p.text = filepathOf d.text url ∧
      p.slashes = d.slashes := by
  let rel := (if url = ['/'] then "/index.html".toList else url).dropWhile
    (· = '/')
  obtain ⟨habs, hslashes⟩ :=
    Posix.slashes_join (head?_dropWhile_slash _ : rel.head? ≠ some '/') d
  exact ⟨.of _ habs, (Posix.normpath_eq_text habs).symm, hslashes⟩

/-- A static answer is confined to the directory unless its path leads to a file
beside the directory. -/
theorem static_files_confined_iff (habsolute : dir.head? = some '/')
    (hnormal : Posix.normpath dir = dir)
    (hdir : ∃ entries, lookupPath tree dir = some (.dir entries))
    (netlocOk : List Char → Bool) (path : List Char) :
    Confined (answerStatic netlocOk dir tree path) dir ↔
      ¬LeadsBeside netlocOk dir tree path := by
  obtain ⟨entries, hentries⟩ := hdir
  obtain ⟨d, rfl⟩ : ∃ d : Posix.AbsPath, d.text = dir :=
    ⟨.of dir habsolute, by rw [← Posix.normpath_eq_text, hnormal]⟩
  constructor
  · rintro hconfined ⟨url, d', p, content, hurl, hd, hp, hbeside, hlookup⟩
    cases Posix.AbsPath.text_injective hd
    have hbegins : d.text <+: filepathOf d.text url := by
      rw [← hp, Posix.AbsPath.text_isPrefix_iff hbeside.1]
      exact Or.inr (Or.inr hbeside)
    have hfound : answerStatic netlocOk d.text tree path =
        some (.found (filepathOf d.text url)
          (contentType (Posix.extension (filepathOf d.text url)))
          content) := by
      have htest : d.text.isPrefixOf (filepathOf d.text url) = true :=
        List.isPrefixOf_iff_prefix.mpr hbegins
      rw [hp] at hlookup
      rw [answerStatic, hurl, Option.map_some, serveStatic]
      simp only [htest, hlookup, Bool.not_true, Bool.false_eq_true, if_false]
    obtain ⟨d'', p', hd', hp', hbelow⟩ := hconfined _ _ _ hfound
    cases Posix.AbsPath.text_injective hd'
    cases Posix.AbsPath.text_injective (hp'.trans hp.symm)
    exact hbeside.not_isBelow hbelow
  · intro hnot filepath ctype content hfound
    obtain ⟨url, hurl, hserve⟩ := Option.map_eq_some_iff.mp hfound
    obtain ⟨rfl, hbegins, hlookup⟩ := serveStatic_eq_found hserve
    obtain ⟨p, hp, hslashes⟩ := exists_filepathOf d url
    rw [← hp] at hbegins hlookup ⊢
    rcases (Posix.AbsPath.text_isPrefix_iff hslashes).mp hbegins with
      hnames | hbelow | hbeside
    · -- the directory itself is not a file
      have htext : p.text = d.text := by
        rw [Posix.AbsPath.text, Posix.AbsPath.text, hslashes, hnames]
      rw [htext, hentries] at hlookup
      cases hlookup
    · exact ⟨d, p, rfl, rfl, hbelow⟩
    · exact absurd ⟨url, d, p, content, hurl, rfl, hp, hbeside, hlookup⟩ hnot

/-- `/srv` with the directory of the dashboard, and an older one beside it. -/
def srvTree : Node :=
  .dir
    [("srv".toList, .dir
      [("visualization".toList, .dir
          [("app.js".toList, .file (some [0x31]))]),
        ("visualization_old".toList, .dir
          [("secret.txt".toList, .file (some [0x32]))])])]

theorem static_files_confined_iff_app :
    answerStatic (fun _ => true) "/srv/visualization".toList srvTree
        "/app.js".toList =
      some (.found "/srv/visualization/app.js".toList "application/javascript"
        [0x31]) ∧
    (Confined (answerStatic (fun _ => true) "/srv/visualization".toList srvTree
        "/app.js".toList) "/srv/visualization".toList ↔
      ¬LeadsBeside (fun _ => true) "/srv/visualization".toList srvTree
        "/app.js".toList) :=
  ⟨by decide +kernel, static_files_confined_iff rfl (by decide) ⟨_, rfl⟩ _ _⟩

/-- Two dots and the name of the older directory lead out of the directory. -/
theorem static_file_beside_served :
    answerStatic (fun _ => true) "/srv/visualization".toList srvTree
        "/../visualization_old/secret.txt".toList =
      some (.found "/srv/visualization_old/secret.txt".toList
        "application/octet-stream" [0x32]) ∧
    ¬Confined (answerStatic (fun _ => true) "/srv/visualization".toList srvTree
      "/../visualization_old/secret.txt".toList)
        "/srv/visualization".toList := by
  have hfound : answerStatic (fun _ => true) "/srv/visualization".toList srvTree
      "/../visualization_old/secret.txt".toList =
        some (.found "/srv/visualization_old/secret.txt".toList
          "application/octet-stream" [0x32]) := by
    decide +kernel
  refine ⟨hfound, fun hconfined => ?_⟩
  obtain ⟨d, p, hd, hp, hslashes, more, -, hnames⟩ :=
    hconfined _ _ _ hfound
  have hd' : d = .of "/srv/visualization".toList rfl :=
    Posix.AbsPath.text_injective (hd.trans (by decide))
  have hp' : p = .of "/srv/visualization_old/secret.txt".toList rfl :=
    Posix.AbsPath.text_injective (hp.trans (by decide))
  rw [hd', hp'] at hnames
  have hsecond := congrArg (fun names => names[1]?) hnames
  rw [List.getElem?_append_left (by decide)] at hsecond
  exact absurd hsecond (by decide)

end SentinelHub.Dashboard
