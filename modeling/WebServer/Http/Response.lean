import WebServer.Buffer.Model

/-!
# Http/Response — `src/http/http_response.cc`

The head of a response is appended to a buffer; its body is a mapped file, or a page of text when
there is none.  The file system is a parameter, `Sys`; what a response does to mappings and
descriptors is returned as a list of `SysCall`s.
-/

namespace WebServer

/-- What `stat` reports of a file. -/
structure Stat where
  mode : ℕ
  size : ℕ
  deriving DecidableEq, Repr

namespace Stat

/-- `S_ISDIR(st_mode)`. -/
def isDir (st : Stat) : Bool := st.mode &&& 0o170000 == 0o040000

/-- `st_mode & S_IROTH`. -/
def othersRead (st : Stat) : Bool := st.mode &&& 0o4 != 0

end Stat

/-- The answers of the system to the calls of one `makeResponse`: to the `stat` of the requested
file, to the `stat` of an error page, to `open`, and to `mmap` of a length of a descriptor, which is
never the null address. -/
structure Sys where
  stat : Bytes → Option Stat
  statPage : Bytes → Option Stat
  openFile : Bytes → Option ℕ
  mmap : ℕ → ℕ → Option ℕ

/-- The calls of a response that take or give back a resource. -/
inductive SysCall where
  | openFile (fd : ℕ)
  | close (fd : ℕ)
  | mmap (addr len : ℕ)
  | munmap (addr len : ℕ)
  deriving DecidableEq, Repr

/-- `_file` is the address of the mapped file, or null. -/
structure HttpResponse where
  code : ℤ
  keepAlive : Bool
  path : Bytes
  srcDir : Bytes
  file : Option ℕ
  fileStat : Stat

namespace HttpResponse

def FILE_TYPE : List (Bytes × Bytes) :=
  [(str ".html", str "text/html"),
    (str ".xml", str "text/xml"),
    (str ".xhtml", str "application/xhtml+xml"),
    (str ".txt", str "text/plain"),
    (str ".rtf", str "application/rtf"),
    (str ".pdf", str "application/pdf"),
    (str ".word", str "application/nsword"),
    (str ".png", str "image/png"),
    (str ".gif", str "image/gif"),
    (str ".jpg", str "image/jpeg"),
    (str ".jpeg", str "image/jpeg"),
    (str ".au", str "audio/basic"),
    (str ".mpeg", str "video/mpeg"),
    (str ".mpg", str "video/mpeg"),
    (str ".avi", str "video/x-msvideo"),
    (str ".gz", str "application/x-gzip"),
    (str ".tar", str "application/x-tar"),
    (str ".css", str "text/css "),
    (str ".js", str "text/javascript ")]

def STATUS_CODE : List (ℤ × Bytes) :=
  [(200, str "OK"), (400, str "Bad Request"), (403, str "Forbidden"), (404, str "Not Found")]

def ERROR_CODE : List (ℤ × Bytes) :=
  [(400, str "/400.html"), (403, str "/403.html"), (404, str "/404.html")]

/-- `HttpResponse::HttpResponse()`. -/
def new : HttpResponse := ⟨-1, false, [], [], none, ⟨0, 0⟩⟩

variable (r : HttpResponse) (sys : Sys) (buf : Buffer)

def getFileLen : ℤ := Word.int32 r.fileStat.size

def getFile : Option ℕ := r.file

def unmapFile : HttpResponse × List SysCall :=
  match r.file with
  | none => (r, [])
  | some addr => ({ r with file := none }, [.munmap addr r.fileStat.size])

def init (srcDir path : Bytes) (keepAlive : Bool) (code : ℤ) : HttpResponse × List SysCall :=
  let (r, calls) := r.unmapFile
  ({ r with srcDir, path, keepAlive, code }, calls)

/-- The first statement of `makeResponse`: `stat` the requested file and choose the code. -/
def statFile : HttpResponse :=
  match sys.stat (cstr (r.srcDir ++ r.path)) with
  | none => { r with code := 404 }
  | some st =>
    if st.isDir then { r with code := 404, fileStat := st }
    else if !st.othersRead then { r with code := 403, fileStat := st }
    else { r with code := 200, fileStat := st }

def errorHtml : HttpResponse :=
  match ERROR_CODE.lookup r.code with
  | none => r
  | some page =>
    match sys.statPage (cstr (r.srcDir ++ page)) with
    | none => { r with path := page }
    | some st => { r with path := page, fileStat := st }

def addStateLine : Exec (HttpResponse × Buffer) := do
  let code := if (STATUS_CODE.lookup r.code).isSome then r.code else 400
  let status := (STATUS_CODE.lookup code).getD []
  let buf ← buf.append
    (str "HTTP/1.1 " ++ str (toString code) ++ str " " ++ status ++ str "\r\n")
  return ({ r with code }, buf)

def getFileType : Bytes :=
  let dot := '.'.toUInt8
  if dot ∈ r.path then
    let type := dot :: (r.path.reverse.takeWhile (· != dot)).reverse
    (FILE_TYPE.lookup type).getD (str "text/plain")
  else str "text/plain"

def addHeader : Exec Buffer := do
  let buf ← buf.append (str "Connection: ")
  let buf ← if r.keepAlive then do
      let buf ← buf.append (str "keep-alive\r\n")
      buf.append (str "keep-alive: max=10, timeout=120\r\n")
    else buf.append (str "close\r\n")
  buf.append (str "Content-type: " ++ r.getFileType ++ str "\r\n")

/-- The page `_errorContent` makes up. -/
def errorBody (message : Bytes) : Bytes :=
  str "<html><title>Error</title>" ++ str "<body bgcolor=\"ffffff\">"
    ++ str (toString r.code) ++ str " : " ++ (ERROR_CODE.lookup r.code).getD (str "Bad Request")
    ++ str "\n" ++ str "<p>" ++ message ++ str "</p>"
    ++ str "<hr><em>FutrueWebServer</em></body></html>"

def errorContent (message : Bytes) : Exec Buffer := do
  let body := r.errorBody message
  let buf ← buf.append (str "Content-length: " ++ str (toString body.length) ++ str "\r\n\r\n")
  buf.append body

def addContent : Exec (HttpResponse × Buffer × List SysCall) :=
  match sys.openFile (cstr (r.srcDir ++ r.path)) with
  | none => do
    let buf ← r.errorContent buf (str "File NotFound!")
    return (r, buf, [])
  | some fd =>
    match sys.mmap r.fileStat.size fd with
    | none => do
      let buf ← r.errorContent buf (str "File NotFound!")
      return (r, buf, [.openFile fd])
    | some addr => do
      let buf ← buf.append
        (str "Content-length: " ++ str (toString r.fileStat.size) ++ str "\r\n\r\n")
      return ({ r with file := some addr }, buf,
        [.openFile fd, .mmap addr r.fileStat.size, .close fd])

def makeResponse : Exec (HttpResponse × Buffer × List SysCall) := do
  let r := (r.statFile sys).errorHtml sys
  let (r, buf) ← r.addStateLine buf
  let buf ← r.addHeader buf
  r.addContent sys buf

end HttpResponse

end WebServer
