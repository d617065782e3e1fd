import WebServer.Basic
import WebServer.Machinery.Regex

/-!
# Http/Request — `src/http/http_request.cc`, but for the loop of `parse`

The parser's state, its line handlers, and what they do with a finished form.  The two regular
expressions are patterns of `Machinery/Regex`; MySQL is a parameter that answers each query text.
Logging is left out: it reads the request and changes nothing.
-/

namespace WebServer

/-- A `std::unordered_map<std::string, std::string>`. -/
abbrev Dict := Bytes → Option Bytes

namespace Dict

def empty : Dict := fun _ => none

/-- `m[key] = value`. -/
def set (m : Dict) (key value : Bytes) : Dict := Function.update m key (some value)

/-- The map after `m[key]` is read: a missing key is inserted. -/
def touch (m : Dict) (key : Bytes) : Dict := if m key = none then m.set key [] else m

/-- What `m[key]` reads. -/
def get (m : Dict) (key : Bytes) : Bytes := (m key).getD []

/-- The map built from a list of pairs, the last value of a key winning. -/
def ofList (l : List (Bytes × Bytes)) : Dict := l.foldl (fun d h => d.set h.1 h.2) .empty

@[simp] theorem set_self (m : Dict) (key value : Bytes) : m.set key value key = some value := by
  rw [set, Function.update_self]

theorem set_of_ne {key key' : Bytes} (h : key' ≠ key) (m : Dict) (value : Bytes) :
    m.set key value key' = m key' := by
  rw [set, Function.update_of_ne h]

end Dict

/-! ## MySQL -/

/-- A row of the table `user`; a column may be NULL. -/
structure MysqlRow where
  username : Option Bytes
  password : Option Bytes

/-- The answer to a query: `mysql_query` fails, or `mysql_store_result` returns rows or null. -/
inductive MysqlReply where
  | failed
  | stored (res : Option (List MysqlRow))

/-- The database behind the pool: whether `getConn` hands out a connection, and how each statement
is answered. -/
structure Mysql where
  hasConn : Bool
  query : Bytes → MysqlReply

/-- `SqlConn sql(&SqlConnPool::instance())`. -/
def Mysql.sqlConn (db : Mysql) : Exec Unit := assert (db.hasConn = true) "_mysql"

/-- What `snprintf(order, 256, ..)` leaves of its text. -/
def order (text : Bytes) : Bytes := text.take 255

/-! ## The request -/

inductive ParseState where
  | requestLine
  | headers
  | body
  | finish
  deriving DecidableEq, Repr

structure HttpRequest where
  state : ParseState
  method : Bytes
  path : Bytes
  version : Bytes
  body : Bytes
  headers : Dict
  post : Dict

namespace HttpRequest

def COLON : Byte := ':'.toUInt8

def DEFAULT_HTML : List Bytes :=
  [str "/", str "/index", str "/register", str "/login", str "/welcome", str "/picture",
    str "/video"]

def LOGIN_OPTIONS : List (Bytes × ℤ) := [(str "/login.html", 0), (str "/register.html", 1)]

/-- The literal text of a pattern. -/
def lit (s : Bytes) : List (Regex.Item Byte) := s.map fun c => Regex.skip (.one (· == c))

/-- `^([^ ]*) ([^ ]*) HTTP/([^ ]*)$` -/
def requestLinePattern : List (Regex.Item Byte) :=
  Regex.group (.many (· != SP)) :: lit [SP] ++ Regex.group (.many (· != SP)) :: lit [SP]
    ++ lit (str "HTTP/") ++ [Regex.group (.many (· != SP))]

/-- `^([^:]*): ?(.*)$`; the dot is any byte but a line terminator. -/
def headerPattern : List (Regex.Item Byte) :=
  Regex.group (.many (· != COLON)) :: lit [COLON] ++ [Regex.skip (.opt (· == SP)),
    Regex.group (.many fun c => c != CR && c != LF)]

variable (r : HttpRequest)

/-- A request with nothing parsed. -/
def blank : HttpRequest := ⟨.requestLine, [], [], [], [], .empty, .empty⟩

def init (_ : HttpRequest) : HttpRequest := blank

def isKeepAlive : Bool :=
  match r.headers (str "Connection") with
  | none => false
  | some v => v == str "keep-alive" && r.version == str "1.1"

def parseRequestLine (line : Bytes) : Bool × HttpRequest :=
  match Regex.fullMatch requestLinePattern line with
  | some [method, path, version] => (true, { r with method, path, version, state := .headers })
  | _ => (false, r)

def parseHeaders (line : Bytes) : Bool × HttpRequest :=
  if line.isEmpty then (true, { r with state := .body })
  else
    match Regex.fullMatch headerPattern line with
    | some [name, value] => (true, { r with headers := r.headers.set name value })
    | _ => (false, r)

def parsePath : HttpRequest :=
  if r.path ∈ DEFAULT_HTML then
    if r.path = str "/" then { r with path := str "/index.html" }
    else { r with path := r.path ++ str ".html" }
  else r

/-! ### Form data -/

/-- `s.substr(pos, n)`. -/
def substr (s : Bytes) (pos n : ℕ) : Bytes := (s.drop pos).take n

/-- The variables of the loop in `_parseEncodedUrl`, beside its index. -/
structure FormScan where
  body : Bytes
  key : Bytes
  value : Bytes
  start : ℕ
  post : Dict

/-- One pass of that loop, at the byte `pos`.  A `%` is not decoded. -/
def FormScan.pass (s : FormScan) (pos : ℕ) : FormScan :=
  let c := s.body.getD pos 0
  if c = '+'.toUInt8 then { s with body := s.body.set pos SP }
  else if c = '='.toUInt8 then
    { s with key := substr s.body s.start (pos - s.start), start := pos + 1 }
  else if c = '&'.toUInt8 then
    let value := substr s.body s.start (pos - s.start)
    { s with value, start := pos + 1, post := s.post.set s.key value }
  else s

def parseEncodedUrl : HttpRequest :=
  let s := (List.range r.body.length).foldl FormScan.pass ⟨r.body, [], [], 0, r.post⟩
  let size := r.body.length
  if s.start > size then { r with body := s.body, post := s.post }
  else
    { r with body := s.body, post := s.post.set s.key (substr s.body s.start (size - s.start)) }

/-- The text of `_userVerify`'s query. -/
def verifyQuery (username : Bytes) : Bytes :=
  order (str "SELECT username, password FROM user WHERE username='" ++ cstr username
    ++ str "' LIMIT 1")

def userVerify (db : Mysql) (username password : Bytes) : Exec Bool :=
  if username = [] then return false
  else do
    db.sqlConn
    match db.query (verifyQuery username) with
    | .failed => return false
    | .stored none => .error .nullDeref
    | .stored (some []) => .error .nullDeref
    | .stored (some (row :: _)) =>
      match row.password with
      | none => .error .nullDeref
      | some pwd => return pwd == password

/-- The text of `_userRegister`'s statement. -/
def registerQuery (username password : Bytes) : Bytes :=
  order (str "INSERT INTO user(username, password) VALUES('" ++ cstr username ++ str "', '"
    ++ cstr password ++ str "')")

def userRegister (db : Mysql) (username password : Bytes) : Exec Bool := do
  db.sqlConn
  match db.query (registerQuery username password) with
  | .failed => return false
  | .stored _ => return true

def parsePost (db : Mysql) : Exec (Bool × HttpRequest) :=
  match r.headers (str "Content-Type") with
  | none => return (false, r)
  | some ct =>
    if ct ≠ str "application/x-www-form-urlencoded" then return (false, r)
    else
      let r := r.parseEncodedUrl
      match LOGIN_OPTIONS.lookup r.path with
      | none => return (true, r)
      | some tag => do
        let username := r.post.get (str "username")
        let password := r.post.get (str "password")
        let r := { r with post := (r.post.touch (str "username")).touch (str "password") }
        if tag = 1 then return (← userRegister db username password, r)
        else if ← userVerify db username password then
          return (true, { r with path := str "/welcome.html" })
        else return (true, { r with path := str "/error.html" })

def parseBody (db : Mysql) (line : Bytes) : Exec (Bool × HttpRequest) :=
  if r.method ≠ str "POST" then return (true, r)
  else if line.isEmpty then return (true, r)
  else do
    let (ok, r) ← { r with body := line }.parsePost db
    if ok then return (true, { r with state := .finish }) else return (false, r)

/-- The `switch` of `parse`: the handler of the current state, on one line. -/
def handleLine (db : Mysql) (line : Bytes) : Exec (Bool × HttpRequest) :=
  match r.state with
  | .requestLine =>
    match r.parseRequestLine line with
    | (false, r) => return (false, r)
    | (true, r) => return (true, r.parsePath)
  | .headers => return r.parseHeaders line
  | .body => r.parseBody db line
  | .finish => return (true, r)

/-! ### Where a request can fault -/

/-- The faults of a MySQL call: no connection, or a result that is not there. -/
def MysqlFault (e : Fault) : Prop := e = .nullDeref ∨ e = .assertion "_mysql"

variable {r : HttpRequest} {db : Mysql} {e : Fault}

theorem sqlConn_fault (h : db.sqlConn = .error e) : MysqlFault e := by
  rw [Mysql.sqlConn, assert] at h
  split at h
  · cases h
  · exact .inr (Except.error.inj h).symm

theorem userVerify_fault {username password : Bytes}
    (h : userVerify db username password = .error e) : MysqlFault e := by
  rw [userVerify] at h
  split at h
  · cases h
  · rcases bind_eq_error.mp h with h | ⟨-, -, h⟩
    · exact sqlConn_fault h
    · split at h
      · cases h
      · exact .inl (Except.error.inj h).symm
      · exact .inl (Except.error.inj h).symm
      · split at h
        · exact .inl (Except.error.inj h).symm
        · cases h

theorem userRegister_fault {username password : Bytes}
    (h : userRegister db username password = .error e) : MysqlFault e := by
  rw [userRegister] at h
  rcases bind_eq_error.mp h with h | ⟨-, -, h⟩
  · exact sqlConn_fault h
  · split at h <;> cases h

theorem parsePost_fault (h : r.parsePost db = .error e) : MysqlFault e := by
  rw [parsePost] at h
  split at h
  · cases h
  · split at h
    · cases h
    · simp only at h
      split at h
      · cases h
      · split at h
        · rcases bind_eq_error.mp h with h | ⟨ok, -, h⟩
          · exact userRegister_fault h
          · cases h
        · rcases bind_eq_error.mp h with h | ⟨ok, -, h⟩
          · exact userVerify_fault h
          · split at h <;> cases h

/-- **Only the MySQL calls of a form can fault.** -/
theorem handleLine_fault {line : Bytes} (h : r.handleLine db line = .error e) : MysqlFault e := by
  rw [handleLine] at h
  split at h
  · split at h <;> cases h
  · cases h
  · rw [parseBody] at h
    split at h
    · cases h
    · split at h
      · cases h
      · rcases bind_eq_error.mp h with h | ⟨⟨_ | _, r'⟩, -, h⟩
        · exact parsePost_fault h
        · cases h
        · cases h
  · cases h

theorem MysqlFault.ne_retrieve (h : MysqlFault e) :
    e ≠ .assertion "len <= getReadableBytes()" := by
  rintro rfl
  rcases h with h | h
  · cases h
  · exact absurd (Fault.assertion.inj h) (by decide)

end HttpRequest

end WebServer
