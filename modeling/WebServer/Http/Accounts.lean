import WebServer.Http.Login
import WebServer.Http.Post
import WebServer.Machinery.Machine

/-!
# Http/Accounts — the accounts that the forms of many clients make

Behind the pool is a database server: it answers a statement and may be changed by it.  A form sends
one statement at most (`statement`, `parsePost_congr`).  So a run of `parse` on posted forms is a
run of registrations and logins, and `accounts_exact` says what a login finds after any of them,
where names and passwords are letters and digits that fit the statements: exactly the accounts of
the table and of the registrations that were accepted.
-/

namespace WebServer

namespace HttpRequest

/-- A database server: what it answers to a statement, and what it is then. -/
structure Engine (σ : Type) where
  run : σ → Bytes → MysqlReply × σ

/-- The server as one request sees it, through a free connection. -/
def Engine.db {σ : Type} (e : Engine σ) (s : σ) : Mysql := ⟨true, fun text => (e.run s text).1⟩

variable {σ : Type} {e : Engine σ} {table : σ → List MysqlRow} {db db' : Mysql} {r : HttpRequest}
  {b : Buffer} {u p : Bytes}

/-! ## The statement of a form -/

/-- The statement that `_parsePost` sends, if it sends one. -/
def statement (r : HttpRequest) : Option Bytes :=
  if r.headers (str "Content-Type") = some (str "application/x-www-form-urlencoded") then
    let r := r.parseEncodedUrl
    let username := r.post.get (str "username")
    let password := r.post.get (str "password")
    match LOGIN_OPTIONS.lookup r.path with
    | none => none
    | some tag =>
      if tag = 1 then some (registerQuery username password)
      else if username = [] then none else some (verifyQuery username)
  else none

/-- **`_parsePost` is told nothing but the answer to its statement.** -/
theorem parsePost_congr (hconn : db.hasConn = db'.hasConn)
    (h : ∀ text, r.statement = some text → db.query text = db'.query text) :
    r.parsePost db = r.parsePost db' := by
  have hsql : db.sqlConn = db'.sqlConn := by rw [Mysql.sqlConn, Mysql.sqlConn, hconn]
  rw [statement] at h
  rw [parsePost, parsePost]
  cases htype : r.headers (str "Content-Type") with
  | none => rfl
  | some ct =>
    dsimp only
    by_cases hct : ct = str "application/x-www-form-urlencoded"
    · rw [if_neg (not_not.mpr hct), if_neg (not_not.mpr hct)]
      rw [htype, hct, if_pos rfl] at h
      dsimp only at h ⊢
      cases hpath : LOGIN_OPTIONS.lookup r.parseEncodedUrl.path with
      | none => rfl
      | some tag =>
        rw [hpath] at h
        dsimp only at h ⊢
        by_cases htag : tag = 1
        · rw [if_pos htag, if_pos htag]
          rw [if_pos htag] at h
          rw [userRegister, userRegister, hsql, h _ rfl]
        · rw [if_neg htag, if_neg htag]
          rw [if_neg htag] at h
          rw [userVerify, userVerify]
          by_cases hu : r.parseEncodedUrl.post.get (str "username") = []
          · rw [if_pos hu, if_pos hu]
          · rw [if_neg hu, if_neg hu]
            rw [if_neg hu] at h
            rw [hsql, h _ rfl]
    · rw [if_pos hct, if_pos hct]

/-- What the server is once the statement of a request has been sent. -/
def Engine.after (e : Engine σ) (s : σ) (r : HttpRequest) : σ :=
  match r.statement with
  | none => s
  | some text => (e.run s text).2

namespace Form

variable (f : Form)

def username : Bytes := (Dict.ofList f.pairs).get (str "username")

def password : Bytes := (Dict.ofList f.pairs).get (str "password")

/-- What the decoder makes of a posted form. -/
theorem posted_decoded : ∃ body, f.posted.parseEncodedUrl =
    { f.posted with body, post := Dict.ofList f.pairs } :=
  parseEncodedUrl_encode f.posted f.pairs_ne f.pairs_ok rfl

theorem statement_login (hpath : f.path = str "/login") :
    f.posted.statement = if f.username = [] then none else some (verifyQuery f.username) := by
  obtain ⟨body, hform⟩ := f.posted_decoded
  have hlookup : LOGIN_OPTIONS.lookup f.posted.path = some 0 := by
    show LOGIN_OPTIONS.lookup (htmlPath f.path) = some 0
    rw [hpath]
    decide +kernel
  rw [statement, if_pos f.posted_type, hform]
  dsimp only
  rw [hlookup]
  rfl

theorem statement_register (hpath : f.path = str "/register") :
    f.posted.statement = some (registerQuery f.username f.password) := by
  obtain ⟨body, hform⟩ := f.posted_decoded
  have hlookup : LOGIN_OPTIONS.lookup f.posted.path = some 1 := by
    show LOGIN_OPTIONS.lookup (htmlPath f.path) = some 1
    rw [hpath]
    decide +kernel
  rw [statement, if_pos f.posted_type, hform]
  dsimp only
  rw [hlookup]
  rfl

/-- What `_parsePost` makes of a login. -/
theorem parsePost_login (hpath : f.path = str "/login") (db : Mysql) :
    ∃ r₁ : HttpRequest, f.posted.parsePost db = (userVerify db f.username f.password).map fun ok =>
      (true, { r₁ with path := if ok then str "/welcome.html" else str "/error.html" }) := by
  obtain ⟨body, hform⟩ := f.posted_decoded
  have hlookup : LOGIN_OPTIONS.lookup f.posted.path = some 0 := by
    show LOGIN_OPTIONS.lookup (htmlPath f.path) = some 0
    rw [hpath]
    decide +kernel
  refine ⟨{ f.posted with
    body := body
    post := ((Dict.ofList f.pairs).touch (str "username")).touch (str "password") }, ?_⟩
  rw [parsePost, f.posted_type]
  dsimp only
  rw [if_neg (by simp), hform]
  dsimp only
  rw [hlookup]
  dsimp only
  rw [if_neg (by decide)]
  show (userVerify db f.username f.password >>= _) = _
  cases userVerify db f.username f.password with
  | error e => rfl
  | ok ok => cases ok <;> rfl

/-- What `_parsePost` makes of a registration. -/
theorem parsePost_register (hpath : f.path = str "/register") (db : Mysql) :
    ∃ r₁ : HttpRequest, r₁.path = str "/register.html" ∧
      f.posted.parsePost db
        = (userRegister db f.username f.password).map fun ok => (ok, r₁) := by
  obtain ⟨body, hform⟩ := f.posted_decoded
  have hhtml : f.posted.path = str "/register.html" := by
    show htmlPath f.path = _
    rw [hpath]
    decide +kernel
  have hlookup : LOGIN_OPTIONS.lookup f.posted.path = some 1 := by
    rw [hhtml]
    decide +kernel
  refine ⟨{ f.posted with
    body := body
    post := ((Dict.ofList f.pairs).touch (str "username")).touch (str "password") }, hhtml, ?_⟩
  rw [parsePost, f.posted_type]
  dsimp only
  rw [if_neg (by simp), hform]
  dsimp only
  rw [hlookup]
  dsimp only
  rw [if_pos rfl]
  show (userRegister db f.username f.password >>= _) = _
  cases userRegister db f.username f.password <;> rfl

/-- A form of the login or the registration page, with letters and digits that fit both
statements. -/
structure Credentialed : Prop where
  path : f.path = str "/login" ∨ f.path = str "/register"
  username : Alphanumeric f.username
  password : Alphanumeric f.password
  verify_le : 61 + f.username.length ≤ 255
  register_le : 51 + f.username.length + f.password.length ≤ 255

end Form

/-! ## The server's part -/

/-- The server keeps a table with unique usernames: the statements of the forms, where MySQL reads
them as they are meant, select from it and insert into it, unless they fail. -/
structure Engine.Keeps (e : Engine σ) (table : σ → List MysqlRow) : Prop where
  select : ∀ s text u, mysql.read .text text = some (verifyTemplate u) →
    table (e.run s text).2 = table s ∧
      ((e.run s text).1 = .failed ∨ (e.run s text).1 = .stored (some (matching (table s) u)))
  insert : ∀ s text u p, mysql.read .text text = some (registerTemplate u p) →
    ((e.run s text).1 = .failed ∧ table (e.run s text).2 = table s) ∨
    ((e.run s text).1 = .stored none ∧ (∀ row ∈ table s, row.username ≠ some u) ∧
      table (e.run s text).2 = table s ++ [⟨some u, some p⟩])

/-! ## Runs of forms -/

/-- The server, and the registrations that were accepted so far. -/
structure Accounts (σ : Type) where
  server : σ
  accepted : List (Bytes × Bytes)

/-- Posted forms, each in the read buffer of a connection. -/
def accounts (e : Engine σ) (s₀ : σ) : Machine Fault (Accounts σ) (Form × Buffer) where
  init s := s = ⟨s₀, []⟩
  legal _ op := op.1.Credentialed ∧ op.2.Ok ∧ op.2.readable = op.1.print
  exec s op := do
    let (ok, _, _) ← blank.parse (e.db s.server) op.2
    return ⟨e.after s.server op.1.posted,
      if ok = true ∧ op.1.path = str "/register" then
        s.accepted ++ [(op.1.username, op.1.password)]
      else s.accepted⟩

/-- The rows of accepted registrations. -/
def rowsOf (accepted : List (Bytes × Bytes)) : List MysqlRow :=
  accepted.map fun h => ⟨some h.1, some h.2⟩

/-- Every row has a password, which is a C string. -/
def Filled (rows : List MysqlRow) : Prop :=
  ∀ row ∈ rows, ∃ pwd, row.password = some pwd ∧ cstr pwd = pwd

/-- What a run keeps: the table is the one of the start and the accepted registrations behind it. -/
structure Booked (table : σ → List MysqlRow) (s₀ : σ) (s : Accounts σ) : Prop where
  rows : table s.server = table s₀ ++ rowsOf s.accepted
  distinct : Distinct (table s.server)
  filled : Filled (table s.server)

theorem distinct_concat {rows : List MysqlRow} (h : Distinct rows) {row : MysqlRow}
    (hnew : ∀ row' ∈ rows, ∀ u, row.username = some u → row'.username ≠ some u) :
    Distinct (rows ++ [row]) := by
  refine List.pairwise_append.mpr ⟨h, List.pairwise_singleton _ _, fun row' hrow' last hlast => ?_⟩
  obtain rfl := List.mem_singleton.mp hlast
  exact fun u hu' hu => hnew row' hrow' u hu hu'

variable {f : Form} {s₀ : σ} {s s' : Accounts σ} {rows : List MysqlRow}

/-- A login asks, or does not. -/
theorem after_login (hkeeps : e.Keeps table) (hf : f.Credentialed) (hpath : f.path = str "/login")
    (t : σ) : table (e.after t f.posted) = table t := by
  rw [Engine.after, f.statement_login hpath]
  by_cases hu : f.username = []
  · rw [if_pos hu]
  · rw [if_neg hu]
    exact (hkeeps.select t _ _ ((verifyQuery_read_iff (hf.username.not_mem (by decide))).mpr
      ⟨hf.verify_le, hf.username.harmless⟩)).1

/-- **A registration is refused and changes nothing, or is accepted and adds a new row.** -/
theorem register_cases (hkeeps : e.Keeps table) (hf : f.Credentialed)
    (hpath : f.path = str "/register") (t : σ) :
    (userRegister (e.db t) f.username f.password = .ok false ∧
      table (e.after t f.posted) = table t) ∨
    (userRegister (e.db t) f.username f.password = .ok true ∧
      (∀ row ∈ table t, row.username ≠ some f.username) ∧
      table (e.after t f.posted) = table t ++ [⟨some f.username, some f.password⟩]) := by
  have hread := (registerQuery_read_iff (hf.username.not_mem (by decide))
    (hf.password.not_mem (by decide))).mpr
      ⟨hf.register_le, hf.username.harmless, hf.password.harmless⟩
  have hafter : e.after t f.posted = (e.run t (registerQuery f.username f.password)).2 := by
    rw [Engine.after, f.statement_register hpath]
  rw [hafter, userRegister, Mysql.sqlConn, assert_true (by rfl), ok_bind, Engine.db]
  dsimp only
  obtain ⟨hreply, htable⟩ | ⟨hreply, hnew, htable⟩ := hkeeps.insert t _ _ _ hread
  · rw [hreply]
    exact .inl ⟨rfl, htable⟩
  · rw [hreply]
    exact .inr ⟨rfl, hnew, htable⟩

/-- What a login is told, of a row with the username or of none. -/
theorem login_cases (hkeeps : e.Keeps table) (hf : f.Credentialed) (t : σ)
    (hfilled : Filled (table t)) (hne : f.username ≠ [])
    (hquery : (e.run t (verifyQuery f.username)).1 ≠ .failed) :
    (userVerify (e.db t) f.username f.password = .error .nullDeref ∧
      ∀ row ∈ table t, row.username ≠ some f.username) ∨
    ∃ pwd, ⟨some f.username, some pwd⟩ ∈ table t ∧
      userVerify (e.db t) f.username f.password = .ok (pwd == f.password) := by
  have hserves : Serves (e.db t) (table t) :=
    ⟨rfl, fun text u hread => (hkeeps.select t text u hread).2⟩
  obtain hnone | ⟨⟨name, password⟩, hrow, rfl, hverify⟩ :=
    userVerify_cases (p := f.password) hserves hf.username hne hf.verify_le hquery
  · exact .inl hnone
  · obtain ⟨pwd, rfl, hpwd⟩ := hfilled _ hrow
    refine .inr ⟨pwd, hrow, ?_⟩
    rw [hverify]
    show Except.ok (cstr pwd == f.password) = _
    rw [hpwd]

/-- **One form keeps the books.** -/
theorem Booked.step (hkeeps : e.Keeps table) (hs : Booked table s₀ s) {op : Form × Buffer}
    (hlegal : (accounts e s₀).legal s op) (he : (accounts e s₀).exec s op = .ok s') :
    Booked table s₀ s' := by
  obtain ⟨f, b⟩ := op
  obtain ⟨hf, hb, hread⟩ := hlegal
  obtain ⟨b', hparse, -, -⟩ := f.parse_print (e.db s.server) blank hb hread
  obtain ⟨⟨ok, r', b''⟩, hok, he⟩ := bind_eq_ok.mp he
  obtain rfl := Except.ok.inj he
  have hparsed := hparse.symm.trans hok
  rcases hf.path with hpath | hpath
  · have hne : ¬ (ok = true ∧ f.path = str "/register") := by
      rintro ⟨-, hreg⟩
      exact absurd (hpath.symm.trans hreg) (by decide)
    have htable := after_login hkeeps hf hpath s.server
    dsimp only
    rw [if_neg hne]
    exact ⟨htable.trans hs.rows, htable ▸ hs.distinct, htable ▸ hs.filled⟩
  · obtain ⟨r₁, -, hpost⟩ := f.parsePost_register hpath (e.db s.server)
    rw [hpost] at hparsed
    obtain ⟨hreg, htable⟩ | ⟨hreg, hnew, htable⟩ := register_cases hkeeps hf hpath s.server
    · rw [hreg] at hparsed
      obtain rfl : false = ok := congrArg Prod.fst (Except.ok.inj hparsed)
      dsimp only
      rw [if_neg (by simp)]
      exact ⟨htable.trans hs.rows, htable ▸ hs.distinct, htable ▸ hs.filled⟩
    · rw [hreg] at hparsed
      obtain rfl : true = ok := congrArg Prod.fst (Except.ok.inj hparsed)
      dsimp only
      rw [if_pos ⟨rfl, hpath⟩]
      refine ⟨?_, ?_, ?_⟩
      · rw [htable, hs.rows, rowsOf, rowsOf, List.map_append, List.append_assoc]
        rfl
      · dsimp only
        rw [htable]
        exact distinct_concat hs.distinct fun row hrow u hu => by
          obtain rfl := Option.some.inj hu
          exact hnew row hrow
      · dsimp only
        rw [htable]
        intro row hrow
        rcases List.mem_append.mp hrow with hrow | hrow
        · exact hs.filled row hrow
        · obtain rfl := List.mem_singleton.mp hrow
          exact ⟨_, rfl, cstr_eq_self (hf.password.not_mem (by decide))⟩

/-! ## What a login finds -/

/-- The account was there at the start, or its registration was accepted since. -/
def Known (rows : List MysqlRow) (accepted : List (Bytes × Bytes)) (u p : Bytes) : Prop :=
  ⟨some u, some p⟩ ∈ rows ∨ (u, p) ∈ accepted

theorem Booked.known_iff (hs : Booked table s₀ s) (u p : Bytes) :
    ⟨some u, some p⟩ ∈ table s.server ↔ Known (table s₀) s.accepted u p := by
  rw [hs.rows, List.mem_append, Known, rowsOf, List.mem_map]
  simp

/-- How `parse` ends on the form in `b`. -/
def EndsOn (e : Engine σ) (t : σ) (b : Buffer) (page : Bytes) : Prop :=
  ∃ r' b', blank.parse (e.db t) b = .ok (true, r', b') ∧ r'.path = page

/-- A login ends as `_userVerify` does. -/
theorem login_ends (hpath : f.path = str "/login") (hb : b.Ok) (hread : b.readable = f.print)
    (t : σ) :
    (∀ ok, userVerify (e.db t) f.username f.password = .ok ok →
      ∀ page, EndsOn e t b page ↔
        page = if ok then str "/welcome.html" else str "/error.html") ∧
    (∀ fault, userVerify (e.db t) f.username f.password = .error fault →
      blank.parse (e.db t) b = .error fault) := by
  obtain ⟨b', hparse, -, -⟩ := f.parse_print (e.db t) blank hb hread
  obtain ⟨r₁, hpost⟩ := f.parsePost_login hpath (e.db t)
  have hends : blank.parse (e.db t) b
      = (userVerify (e.db t) f.username f.password).map fun ok =>
        (true, finished (true, { r₁ with
          path := if ok then str "/welcome.html" else str "/error.html" }), b') := by
    refine hparse.trans ?_
    rw [hpost]
    cases userVerify (e.db t) f.username f.password <;> rfl
  constructor
  · intro ok hok page
    rw [hok] at hends
    constructor
    · rintro ⟨r', b'', heq, rfl⟩
      obtain ⟨-, rfl, rfl⟩ := Prod.mk.inj (Except.ok.inj (hends.symm.trans heq))
      rfl
    · rintro rfl
      exact ⟨_, _, hends, rfl⟩
  · intro fault hfault
    rw [hfault] at hends
    exact hends

/-- **After any run of forms a login finds exactly the accounts of the start and of the accepted
registrations**, from a table with a password for each of its distinct users, and forms that are
`Credentialed`: it ends on the welcome page for one of them; on the error page for another password
of one of them, for no username, or if the query fails; and a null row is read for any other
username.  No username has two accounts. -/
theorem accounts_exact (hkeeps : e.Keeps table) (hdistinct : Distinct (table s₀))
    (hfilled : Filled (table s₀)) (hs : (accounts e s₀).Reach s) (hf : f.Credentialed)
    (hpath : f.path = str "/login") (hb : b.Ok) (hread : b.readable = f.print) :
    (EndsOn e s.server b (str "/welcome.html") ↔ f.username ≠ [] ∧
      (e.run s.server (verifyQuery f.username)).1 ≠ .failed ∧
      Known (table s₀) s.accepted f.username f.password) ∧
    (EndsOn e s.server b (str "/error.html") ↔ f.username = [] ∨
      (e.run s.server (verifyQuery f.username)).1 = .failed ∨
      ∃ pwd, pwd ≠ f.password ∧ Known (table s₀) s.accepted f.username pwd) ∧
    (blank.parse (e.db s.server) b = .error .nullDeref ↔ f.username ≠ [] ∧
      (e.run s.server (verifyQuery f.username)).1 ≠ .failed ∧
      ∀ pwd, ¬ Known (table s₀) s.accepted f.username pwd) ∧
    ∀ u pwd pwd', Known (table s₀) s.accepted u pwd → Known (table s₀) s.accepted u pwd' →
      pwd = pwd' := by
  have hbooked : Booked table s₀ s := hs.invariant (I := Booked table s₀)
    (fun s hinit => hinit ▸ ⟨(List.append_nil _).symm, hdistinct, hfilled⟩)
    fun _ _ _ hI hl he => hI.step hkeeps hl he
  have hone : ∀ u pwd pwd', Known (table s₀) s.accepted u pwd →
      Known (table s₀) s.accepted u pwd' → pwd = pwd' := by
    intro u pwd pwd' h h'
    have hrow := hbooked.distinct.eq ((hbooked.known_iff u pwd).mpr h)
      ((hbooked.known_iff u pwd').mpr h') rfl rfl
    exact Option.some.inj (congrArg MysqlRow.password hrow)
  have hpages : str "/error.html" ≠ str "/welcome.html" := by decide
  obtain ⟨hends, hfaults⟩ := login_ends (e := e) hpath hb hread s.server
  have hnofault : ∀ ok, userVerify (e.db s.server) f.username f.password = .ok ok →
      blank.parse (e.db s.server) b ≠ .error .nullDeref := by
    intro ok hok hparse
    obtain ⟨r', b', heq, -⟩ := (hends ok hok _).mpr rfl
    cases hparse.symm.trans heq
  rw [and_iff_left hone]
  by_cases hu : f.username = []
  · have hverify : userVerify (e.db s.server) f.username f.password = .ok false := if_pos hu
    simp [hends false hverify, hnofault false hverify, hpages.symm, hu]
  by_cases hquery : (e.run s.server (verifyQuery f.username)).1 = .failed
  · have hverify : userVerify (e.db s.server) f.username f.password = .ok false := by
      have hconn : (e.db s.server).hasConn = true := rfl
      have hfailed : (e.db s.server).query (verifyQuery f.username) = .failed := hquery
      simp [userVerify, hu, Mysql.sqlConn, hconn, hfailed]
    simp [hends false hverify, hnofault false hverify, hpages.symm, hquery]
  obtain ⟨hverify, hnone⟩ | ⟨pwd, hrow, hverify⟩ :=
    login_cases hkeeps hf s.server hbooked.filled hu hquery
  · have hunknown : ∀ pwd, ¬ Known (table s₀) s.accepted f.username pwd := fun pwd hknown =>
      hnone _ ((hbooked.known_iff _ _).mpr hknown) rfl
    have hparse := hfaults _ hverify
    have hnopage : ∀ page, ¬ EndsOn e s.server b page := by
      rintro page ⟨r', b', heq, -⟩
      cases hparse.symm.trans heq
    simp [hnopage, hparse, hu, hquery, hunknown]
  · have hknown := (hbooked.known_iff _ _).mp hrow
    have hpwd : ∀ pwd', Known (table s₀) s.accepted f.username pwd' ↔ pwd' = pwd := fun pwd' =>
      ⟨fun h => hone _ _ _ h hknown, fun heq => heq ▸ hknown⟩
    by_cases heq : pwd = f.password
    · have hverify' : userVerify (e.db s.server) f.username f.password = .ok true := by
        rw [hverify, heq, beq_self_eq_true]
      simp [hends true hverify', hnofault true hverify', hpages, hu, hquery, hpwd, heq]
    · have hverify' : userVerify (e.db s.server) f.username f.password = .ok false := by
        rw [hverify, beq_eq_false_iff_ne.mpr heq]
      simp [hends false hverify', hnofault false hverify', hpages.symm, hu, hquery, hpwd, heq,
        Ne.symm heq]

/-! ## A server that keeps its table -/

/-- The literals of a statement. -/
def literals (ps : List (Quoting.Piece Byte)) : List Bytes :=
  ps.filterMap fun piece =>
    match piece with
    | .text _ => none
    | .literal s => some s

theorem literals_append (text : Bytes) (ps : List (Quoting.Piece Byte)) :
    literals (text.map .text ++ ps) = literals ps := by
  induction text with
  | nil => rfl
  | cons c text ih => exact ih

theorem literals_text (text : Bytes) : literals (text.map .text) = [] := by
  have happend := literals_append text []
  rwa [List.append_nil] at happend

theorem literals_verify (u : Bytes) : literals (verifyTemplate u) = [u] := by
  rw [verifyTemplate, Quoting.pieces, literals_append]
  exact congrArg (u :: ·) (literals_text _)

theorem literals_register (u p : Bytes) : literals (registerTemplate u p) = [u, p] := by
  rw [registerTemplate, Quoting.pieces, literals_append]
  show u :: literals (Quoting.pieces _ _) = [u, p]
  rw [Quoting.pieces, literals_append]
  exact congrArg (u :: p :: ·) (literals_text _)

/-- A server with nothing but the table and the two statements. -/
def keyed : Engine (List MysqlRow) where
  run rows text :=
    match mysql.read .text text with
    | none => (.failed, rows)
    | some ps =>
      match literals ps with
      | [u] => if ps = verifyTemplate u then (.stored (some (matching rows u)), rows)
        else (.failed, rows)
      | [u, p] =>
        if ps = registerTemplate u p ∧ ∀ row ∈ rows, row.username ≠ some u then
          (.stored none, rows ++ [⟨some u, some p⟩])
        else (.failed, rows)
      | _ => (.failed, rows)

theorem keyed_select {text : Bytes} (h : mysql.read .text text = some (verifyTemplate u)) :
    keyed.run rows text = (.stored (some (matching rows u)), rows) := by
  simp only [keyed, h, literals_verify, if_pos]

theorem keyed_keeps : keyed.Keeps id where
  select rows text u h := by
    rw [keyed_select h]
    exact ⟨rfl, .inr rfl⟩
  insert rows text u p h := by
    by_cases hnew : ∀ row ∈ rows, row.username ≠ some u
    · refine .inr ?_
      simp only [keyed, h, literals_register, true_and, if_pos hnew, id_eq]
      exact ⟨hnew, trivial⟩
    · refine .inl ?_
      simp only [keyed, h, literals_register, true_and, if_neg hnew, id_eq]

/-- A registration that goes through. -/
theorem accounts_register (hpath : f.path = str "/register") (hb : b.Ok)
    (hread : b.readable = f.print)
    (hok : userRegister (e.db s.server) f.username f.password = .ok true) :
    (accounts e s₀).exec s (f, b) = .ok ⟨(e.run s.server (registerQuery f.username f.password)).2,
      s.accepted ++ [(f.username, f.password)]⟩ := by
  obtain ⟨b', hparse, -, -⟩ := f.parse_print (e.db s.server) blank hb hread
  obtain ⟨r₁, -, hpost⟩ := f.parsePost_register hpath (e.db s.server)
  rw [hpost, hok] at hparse
  have hparse : blank.parse (e.db s.server) b = .ok (true, finished (true, r₁), b') := hparse
  show (blank.parse (e.db s.server) b >>= _) = _
  rw [hparse, Engine.after, f.statement_register hpath]
  show Except.ok _ = Except.ok _
  rw [if_pos ⟨rfl, hpath⟩]

/-- Bob signs up. -/
def signUp : Form :=
  { note with
    path := str "/register"
    words_ok := by decide +kernel
    pairs := [(str "username", str "bob"), (str "password", str "x")]
    pairs_ne := by decide
    pairs_ok := by decide +kernel
    pairs_line := by decide +kernel }

/-- Bob signs in. -/
def signIn : Form :=
  { signUp with
    path := str "/login"
    words_ok := by decide +kernel }

/-- Bob is let in once he has signed up. -/
theorem accounts_exact_bob : ∃ s, (accounts keyed users).Reach s ∧
    EndsOn keyed s.server (bufferOf signIn.print) (str "/welcome.html") := by
  have hup : signUp.Credentialed :=
    ⟨.inr rfl, by decide +kernel, by decide +kernel, by decide +kernel, by decide +kernel⟩
  have hin : signIn.Credentialed :=
    ⟨.inl rfl, by decide +kernel, by decide +kernel, by decide +kernel, by decide +kernel⟩
  have hupOk : (bufferOf signUp.print).Ok := bufferOf_ok (by decide +kernel)
  have hstep : (accounts keyed users).exec ⟨users, []⟩ (signUp, bufferOf signUp.print) = .ok _ :=
    accounts_register rfl hupOk (readable_bufferOf _) (by decide +kernel)
  have hlegal : (accounts keyed users).legal ⟨users, []⟩ (signUp, bufferOf signUp.print) :=
    ⟨hup, hupOk, readable_bufferOf _⟩
  have hstart : (accounts keyed users).Reach ⟨users, []⟩ := .init (Eq.refl _)
  have hs := hstart.step hlegal hstep
  refine ⟨_, hs, (accounts_exact keyed_keeps (List.pairwise_singleton _ _) ?_ hs hin rfl
    (bufferOf_ok (by decide +kernel)) (readable_bufferOf _)).1.mpr ⟨by decide +kernel, ?_, ?_⟩⟩
  · exact List.forall_mem_singleton.mpr ⟨str "secret", rfl, by decide +kernel⟩
  · rw [keyed_select ((verifyQuery_read_iff (by decide +kernel)).mpr
      ⟨by decide +kernel, hin.username.harmless⟩)]
    exact MysqlReply.noConfusion
  · exact .inr (List.mem_singleton_self _)

end HttpRequest

end WebServer
