import WebServer.Http.Form
import WebServer.Http.Sql

/-!
# Http/Login — who is let in

`_userVerify` takes the row that MySQL finds for granted: a username that is not in the table is a
null row read, and so is a password that is NULL.  Otherwise a login ends on the welcome page or on
the error page, as it should, but for a stored password that goes on after a NUL.
-/

namespace WebServer

/-- A row as `mysql_fetch_row` hands it out, in C strings. -/
def MysqlRow.fetch (row : MysqlRow) : MysqlRow where
  username := row.username.map cstr
  password := row.password.map cstr

/-- The rows of `SELECT .. WHERE username='u' LIMIT 1`. -/
def matching (rows : List MysqlRow) (u : Bytes) : List MysqlRow :=
  ((rows.filter fun row => row.username = some u).take 1).map .fetch

/-- No two rows of the table have one username. -/
def Distinct (rows : List MysqlRow) : Prop :=
  rows.Pairwise fun row row' => ∀ u, row.username = some u → row'.username ≠ some u

variable {rows : List MysqlRow} {u : Bytes}

theorem Distinct.eq (h : Distinct rows) {row row' : MysqlRow} (hrow : row ∈ rows)
    (hrow' : row' ∈ rows) (hu : row.username = some u) (hu' : row'.username = some u) :
    row = row' := by
  by_contra hne
  have : Std.Symm fun row row' : MysqlRow =>
      ∀ u, row.username = some u → row'.username ≠ some u :=
    ⟨fun _ _ h u hu' hu => h u hu hu'⟩
  exact h.forall hrow hrow' hne u hu hu'

/-- What is found is nothing, or the row of the username. -/
theorem matching_cases (rows : List MysqlRow) (u : Bytes) :
    (matching rows u = [] ∧ ∀ row ∈ rows, row.username ≠ some u) ∨
    ∃ row ∈ rows, row.username = some u ∧ matching rows u = [row.fetch] := by
  rw [matching]
  cases h : rows.filter fun row => row.username = some u with
  | nil =>
    refine .inl ⟨rfl, fun row hrow => ?_⟩
    simpa using List.filter_eq_nil_iff.mp h row hrow
  | cons row rest =>
    have hmem : row ∈ rows.filter fun row => row.username = some u := by
      rw [h]
      exact List.mem_cons_self
    obtain ⟨hrow, hu⟩ := List.mem_filter.mp hmem
    exact .inr ⟨row, hrow, by simpa using hu, rfl⟩

namespace HttpRequest

/-- A free connection, and behind it a table that `_userVerify`'s statement, where MySQL reads it as
it is meant, is answered from, if the query does not fail. -/
structure Serves (db : Mysql) (rows : List MysqlRow) : Prop where
  conn : db.hasConn = true
  answer : ∀ text u, mysql.read .text text = some (verifyTemplate u) →
    db.query text = .failed ∨ db.query text = .stored (some (matching rows u))

/-- Letters and digits. -/
def Alphanumeric (s : Bytes) : Prop :=
  ∀ c ∈ s, ('0'.toUInt8 ≤ c ∧ c ≤ '9'.toUInt8) ∨ ('A'.toUInt8 ≤ c ∧ c ≤ 'Z'.toUInt8) ∨
    ('a'.toUInt8 ≤ c ∧ c ≤ 'z'.toUInt8)

/-- A form posted to `/login`, whose encoded body carries the credentials. -/
structure PostsLogin (r : HttpRequest) (u p : Bytes) : Prop where
  path : ∃ r₀ : HttpRequest, r₀.path = str "/login" ∧ r.path = r₀.parsePath.path
  type : r.headers (str "Content-Type") = some (str "application/x-www-form-urlencoded")
  body : ∃ pairs, r.body = encode pairs ∧ (∀ h ∈ pairs, Unmarked h.1 ∧ Unmarked h.2) ∧
    Dict.ofList pairs (str "username") = some u ∧ Dict.ofList pairs (str "password") = some p

/-- Who is to be let in: the table has the credentials, and MySQL says so. -/
def Entitled (db : Mysql) (rows : List MysqlRow) (u p : Bytes) : Prop :=
  u ≠ [] ∧ db.query (verifyQuery u) ≠ .failed ∧ ⟨some u, some p⟩ ∈ rows

/-! ## Letters and digits -/

variable {db : Mysql} {r : HttpRequest} {p s : Bytes}

theorem Alphanumeric.not_mem (h : Alphanumeric s) {c : Byte}
    (hc : ¬ Alphanumeric [c]) : c ∉ s :=
  fun hmem => hc (List.forall_mem_singleton.mpr (h c hmem))

instance : Decidable (Alphanumeric s) := inferInstanceAs (Decidable (∀ c ∈ s, _))

theorem Alphanumeric.harmless (h : Alphanumeric s) : Harmless s := by
  refine ⟨h.not_mem (by decide), fun front back heq => ?_⟩
  have hmem : BACKSLASH ∈ s := heq ▸ List.mem_append_right _ List.mem_cons_self
  exact absurd hmem (h.not_mem (by decide))

/-! ## The form and the query -/

/-- What `_parsePost` makes of the form: `_userVerify` decides. -/
theorem parsePost_eq (h : PostsLogin r u p) (db : Mysql) :
    ∃ r' : HttpRequest, r.parsePost db = (userVerify db u p >>= fun ok =>
      .ok (true, { r' with path := if ok then str "/welcome.html" else str "/error.html" })) := by
  obtain ⟨⟨r₀, hr₀, hpath⟩, htype, pairs, hbody, hpairs, hu, hp⟩ := h
  have hlogin : r.path = str "/login.html" := by
    rw [hpath, parsePath, if_pos (by rw [hr₀]; decide), if_neg (by rw [hr₀]; decide)]
    show r₀.path ++ str ".html" = _
    rw [hr₀]
    decide
  have hne : pairs ≠ [] := by
    rintro rfl
    cases hu
  obtain ⟨body, hform⟩ := parseEncodedUrl_encode r hne hpairs hbody
  have hlookup : LOGIN_OPTIONS.lookup r.path = some 0 := by
    rw [hlogin]
    decide
  have hu' := setAll_of_ofList hu r.post
  have hp' := setAll_of_ofList hp r.post
  refine ⟨{ r with
    body := body
    post := ((setAll r.post pairs).touch (str "username")).touch (str "password") }, ?_⟩
  rw [parsePost, htype]
  dsimp only
  rw [if_neg (by simp), hform]
  dsimp only
  rw [hlookup]
  dsimp only
  rw [if_neg (by decide), Dict.get, Dict.get, hu', hp', Option.getD_some, Option.getD_some]
  cases userVerify db u p with
  | error e => rfl
  | ok ok => cases ok <;> rfl

/-- What `_userVerify` makes of a row; the column may be NULL. -/
def checkRow (password : Option Bytes) (p : Bytes) : Exec Bool :=
  match password with
  | none => .error .nullDeref
  | some pwd => .ok (cstr pwd == p)

/-- **`_userVerify`, once the query is answered**: no row is a fault. -/
theorem userVerify_cases (hdb : Serves db rows) (hu : Alphanumeric u) (hne : u ≠ [])
    (hfit : 61 + u.length ≤ 255) (hquery : db.query (verifyQuery u) ≠ .failed) :
    (userVerify db u p = .error .nullDeref ∧ ∀ row ∈ rows, row.username ≠ some u) ∨
    ∃ row ∈ rows, row.username = some u ∧ userVerify db u p = checkRow row.password p := by
  have hread := (verifyQuery_read_iff (hu.not_mem (by decide))).mpr ⟨hfit, hu.harmless⟩
  have hanswer := (hdb.answer _ u hread).resolve_left hquery
  rw [userVerify, if_neg hne, Mysql.sqlConn, assert_true hdb.conn, ok_bind, hanswer]
  obtain ⟨h, hnone⟩ | ⟨row, hrow, hname, h⟩ := matching_cases rows u
  · rw [h]
    exact .inl ⟨rfl, hnone⟩
  · rw [h]
    refine .inr ⟨row, hrow, hname, ?_⟩
    rw [MysqlRow.fetch]
    cases row.password <;> rfl

/-! ## Who is let in -/

/-- A login ends as it is to end: on the welcome page for who is to be let in, on the error page for
everyone else. -/
def Decided (db : Mysql) (rows : List MysqlRow) (r : HttpRequest) (u p : Bytes) : Prop :=
  ∃ r', r.parsePost db = .ok (true, r') ∧
    (Entitled db rows u p → r'.path = str "/welcome.html") ∧
    (¬ Entitled db rows u p → r'.path = str "/error.html")

theorem decided_iff (h : PostsLogin r u p) :
    Decided db rows r u p ↔
      ∃ ok, userVerify db u p = .ok ok ∧ (ok = true ↔ Entitled db rows u p) := by
  obtain ⟨r₁, heq⟩ := parsePost_eq h db
  rw [Decided, heq]
  cases hverify : userVerify db u p with
  | error e => simp
  | ok ok =>
    have hne : str "/welcome.html" ≠ str "/error.html" := by decide
    rw [ok_bind]
    by_cases hent : Entitled db rows u p <;> cases ok <;> simp [hent, hne, hne.symm]

/-- **A login ends as it is to end if and only if** the username is empty, or the query fails, or
the table has a row with the username and a password, and what that password says before its first
NUL is not the one posted unless all of it is. -/
theorem login_decided_iff (hrows : Distinct rows) (hdb : Serves db rows) (h : PostsLogin r u p)
    (hu : Alphanumeric u) (hp : Alphanumeric p) (hfit : 61 + u.length ≤ 255) :
    Decided db rows r u p ↔
      u = [] ∨ db.query (verifyQuery u) = .failed ∨
        ∃ pwd, ⟨some u, some pwd⟩ ∈ rows ∧ (cstr pwd = p → pwd = p) := by
  rw [decided_iff h]
  by_cases hne : u = []
  · subst hne
    simp [userVerify, Entitled]
  by_cases hquery : db.query (verifyQuery u) = .failed
  · simp [userVerify, hne, Mysql.sqlConn, hdb.conn, hquery, Entitled]
  have hent : Entitled db rows u p ↔ ⟨some u, some p⟩ ∈ rows := by simp [Entitled, hne, hquery]
  simp only [hne, hquery, false_or, hent]
  obtain ⟨hfault, hnone⟩ | ⟨⟨name, password⟩, hrow, hname, hverify⟩ :=
    userVerify_cases (p := p) hdb hu hne hfit hquery
  · rw [hfault]
    constructor
    · rintro ⟨ok, hok, -⟩
      cases hok
    · rintro ⟨pwd, hmem, -⟩
      exact absurd rfl (hnone _ hmem)
  · obtain rfl : name = some u := hname
    have hrow_eq : ∀ pwd, ⟨some u, some pwd⟩ ∈ rows ↔ password = some pwd := fun pwd =>
      ⟨fun hmem => congrArg MysqlRow.password (hrows.eq hrow hmem rfl rfl), fun heq => heq ▸ hrow⟩
    simp only [hrow_eq, hverify]
    cases password with
    | none => simp [checkRow]
    | some pwd =>
      have hself : cstr p = p := cstr_eq_self (hp.not_mem (by decide))
      simp only [checkRow, Except.ok.injEq, Option.some.injEq, exists_eq_left', beq_iff_eq]
      exact ⟨Iff.mp, fun himp => ⟨himp, fun heq => heq ▸ hself⟩⟩

/-! ## A database and its logins -/

/-- The first literal of a statement. -/
def literal : List (Quoting.Piece Byte) → Option Bytes
  | [] => none
  | .text _ :: ps => literal ps
  | .literal s :: _ => some s

theorem literal_append (text : Bytes) (ps : List (Quoting.Piece Byte)) :
    literal (text.map .text ++ ps) = literal ps := by
  induction text with
  | nil => rfl
  | cons c text ih => exact ih

/-- A database with one table, and nothing but `_userVerify`'s query to answer. -/
def answering (rows : List MysqlRow) : Mysql where
  hasConn := true
  query text :=
    match mysql.read .text text with
    | none => .failed
    | some ps =>
      match literal ps with
      | none => .failed
      | some u =>
        if ps = verifyTemplate u then .stored (some (matching rows u)) else .failed

theorem serves_answering (rows : List MysqlRow) : Serves (answering rows) rows where
  conn := rfl
  answer text u h := by
    have hu : literal (verifyTemplate u) = some u := by
      rw [verifyTemplate, Quoting.pieces, literal_append, literal]
    refine .inr ?_
    simp only [answering, h, hu, if_pos]

/-- The form of the login page, filled in. -/
def login (u p : Bytes) : HttpRequest :=
  { blank with
    method := str "POST"
    path := str "/login.html"
    headers := .ofList [(str "Content-Type", str "application/x-www-form-urlencoded")]
    body := encode [(str "username", u), (str "password", p)] }

theorem Alphanumeric.unmarked (h : Alphanumeric s) : Unmarked s := fun c hc =>
  ⟨ne_of_mem_of_not_mem hc (h.not_mem (by decide)), ne_of_mem_of_not_mem hc (h.not_mem (by decide)),
    ne_of_mem_of_not_mem hc (h.not_mem (by decide))⟩

theorem postsLogin_login (hu : Alphanumeric u) (hp : Alphanumeric p) :
    PostsLogin (login u p) u p where
  path := by
    refine ⟨{ blank with path := str "/login" }, rfl, ?_⟩
    show str "/login.html" = _
    decide
  type := rfl
  body := by
    refine ⟨_, rfl, ?_, rfl, rfl⟩
    have husername : Alphanumeric (str "username") := by decide +kernel
    have hpassword : Alphanumeric (str "password") := by decide +kernel
    simp [husername.unmarked, hpassword.unmarked, hu.unmarked, hp.unmarked]

def users : List MysqlRow := [⟨some (str "alice"), some (str "secret")⟩]

/-- Alice is in the table. -/
theorem login_decided_iff_alice :
    Decided (answering users) users (login (str "alice") (str "secret")) (str "alice")
      (str "secret") := by
  have halice : Alphanumeric (str "alice") := by decide +kernel
  have hsecret : Alphanumeric (str "secret") := by decide +kernel
  refine (login_decided_iff (List.pairwise_singleton _ _) (serves_answering users)
    (postsLogin_login halice hsecret) halice hsecret (by decide)).mpr (.inr (.inr ?_))
  exact ⟨str "secret", List.mem_singleton_self _, fun _ => rfl⟩

/-- **Bob is not in the table**: the row that is not there is read. -/
theorem not_login_decided_bob :
    Distinct users ∧ Serves (answering users) users ∧
      PostsLogin (login (str "bob") (str "x")) (str "bob") (str "x") ∧
      (login (str "bob") (str "x")).parsePost (answering users) = .error .nullDeref ∧
      ¬ Decided (answering users) users (login (str "bob") (str "x")) (str "bob") (str "x") := by
  have hpost : PostsLogin (login (str "bob") (str "x")) (str "bob") (str "x") :=
    postsLogin_login (by decide +kernel) (by decide +kernel)
  have hverify : userVerify (answering users) (str "bob") (str "x") = .error .nullDeref := by
    decide +kernel
  obtain ⟨r', heq⟩ := parsePost_eq hpost (answering users)
  rw [hverify, error_bind] at heq
  refine ⟨List.pairwise_singleton _ _, serves_answering users, hpost, heq, ?_⟩
  rintro ⟨r'', hok, -⟩
  rw [heq] at hok
  cases hok

end HttpRequest

end WebServer
