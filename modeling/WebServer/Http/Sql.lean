import WebServer.Http.Request
import WebServer.Machinery.Quoted

/-!
# Http/Sql — how MySQL reads the statements of a form

`_userVerify` and `_userRegister` print the credentials between single quotes, as they are.  So the
statement says what its template says if and only if it fits into the 256 bytes of `order` and the
credentials are plain: no single quote, and no backslash that MySQL would take for an escape.
-/

namespace WebServer

open Quoting

def QUOTE : Byte := 39

def BACKSLASH : Byte := 92

def PERCENT : Byte := '%'.toUInt8

def UNDERSCORE : Byte := '_'.toUInt8

/-- What MySQL takes an escaped byte for, if it does not keep the backslash. -/
def unescaped (c : Byte) : Byte :=
  if c = '0'.toUInt8 then 0
  else if c = 'b'.toUInt8 then 8
  else if c = 't'.toUInt8 then 9
  else if c = 'n'.toUInt8 then LF
  else if c = 'r'.toUInt8 then CR
  else if c = 'Z'.toUInt8 then 26
  else c

/-- MySQL's literals in single quotes.  `\\%` and `\\_` stay as they are, for patterns. -/
def mysql : Quoting Byte where
  quote := QUOTE
  escape := BACKSLASH
  kept c := c == PERCENT || c == UNDERSCORE
  meaning := unescaped

/-- No single quote, and after each backslash a `%` or a `_`. -/
def Harmless (s : Bytes) : Prop :=
  QUOTE ∉ s ∧ ∀ front back, s = front ++ BACKSLASH :: back →
    ∃ c rest, back = c :: rest ∧ (c = PERCENT ∨ c = UNDERSCORE)

theorem plain_iff_harmless {s : Bytes} : mysql.Plain s ↔ Harmless s := by
  rw [plain_iff (q := mysql) (by decide) (by decide) (by decide), Harmless]
  simp [mysql]

namespace HttpRequest

/-- What `_userVerify`'s statement is to say. -/
def verifyTemplate (username : Bytes) : List (Piece Byte) :=
  pieces [(str "SELECT username, password FROM user WHERE username=", username)] (str " LIMIT 1")

/-- What `_userRegister`'s statement is to say. -/
def registerTemplate (username password : Bytes) : List (Piece Byte) :=
  pieces [(str "INSERT INTO user(username, password) VALUES(", username), (str ", ", password)]
    (str ")")

variable {username password : Bytes}

theorem cstr_eq_self {s : Bytes} (h : 0 ∉ s) : cstr s = s :=
  List.takeWhile_eq_self_iff.mpr fun c hc => by simpa using ne_of_mem_of_not_mem hc h

/-- The statement is its template, printed and cut. -/
theorem verifyQuery_eq (h : 0 ∉ username) :
    verifyQuery username = (mysql.print (verifyTemplate username)).take 255 := by
  have hfront : str "SELECT username, password FROM user WHERE username='"
      = str "SELECT username, password FROM user WHERE username=" ++ [QUOTE] := by decide +kernel
  have hback : str "' LIMIT 1" = QUOTE :: str " LIMIT 1" := by decide +kernel
  rw [verifyQuery, order, cstr_eq_self h, verifyTemplate, print_pieces_cons, print_pieces_nil,
    hfront, hback]
  simp only [List.append_assoc, List.cons_append, List.nil_append]
  rfl

theorem registerQuery_eq (hu : 0 ∉ username) (hp : 0 ∉ password) :
    registerQuery username password
      = (mysql.print (registerTemplate username password)).take 255 := by
  have hfront : str "INSERT INTO user(username, password) VALUES('"
      = str "INSERT INTO user(username, password) VALUES(" ++ [QUOTE] := by decide +kernel
  have hmid : str "', '" = QUOTE :: (str ", " ++ [QUOTE]) := by decide +kernel
  have hback : str "')" = QUOTE :: str ")" := by decide +kernel
  rw [registerQuery, order, cstr_eq_self hu, cstr_eq_self hp, registerTemplate, print_pieces_cons,
    print_pieces_cons, print_pieces_nil, hfront, hmid, hback]
  simp only [List.append_assoc, List.cons_append, List.nil_append]
  rfl

/-! ## The statements -/

theorem verifyQuery_read_iff (h : 0 ∉ username) :
    mysql.read .text (verifyQuery username) = some (verifyTemplate username) ↔
      61 + username.length ≤ 255 ∧ Harmless username := by
  have hlen : (mysql.print (verifyTemplate username)).length = 61 + username.length := by
    have htext : (str "SELECT username, password FROM user WHERE username=").length = 51 := by
      decide +kernel
    have hlast : (str " LIMIT 1").length = 8 := by decide +kernel
    rw [verifyTemplate, print_pieces_cons, print_pieces_nil]
    simp only [List.length_append, List.length_cons, htext, hlast]
    omega
  have htext : QUOTE ∉ str "SELECT username, password FROM user WHERE username=" := by
    decide +kernel
  rw [verifyQuery_eq h, ← plain_iff_harmless, ← hlen, verifyTemplate,
    read_take_iff (by decide) (List.forall_mem_singleton.mpr htext) (by simp) (by decide +kernel)]
  simp

theorem registerQuery_read_iff (hu : 0 ∉ username) (hp : 0 ∉ password) :
    mysql.read .text (registerQuery username password)
        = some (registerTemplate username password) ↔
      51 + username.length + password.length ≤ 255 ∧ Harmless username ∧ Harmless password := by
  have hlen : (mysql.print (registerTemplate username password)).length
      = 51 + username.length + password.length := by
    have htext : (str "INSERT INTO user(username, password) VALUES(").length = 44 := by
      decide +kernel
    have hlast : (str ", ").length = 2 ∧ (str ")").length = 1 := by decide +kernel
    rw [registerTemplate, print_pieces_cons, print_pieces_cons, print_pieces_nil]
    simp only [List.length_append, List.length_cons, htext, hlast]
    omega
  have htext : QUOTE ∉ str "INSERT INTO user(username, password) VALUES(" := by decide +kernel
  have hcomma : QUOTE ∉ str ", " := by decide +kernel
  rw [registerQuery_eq hu hp, ← plain_iff_harmless, ← plain_iff_harmless, ← hlen,
    registerTemplate,
    read_take_iff (by decide)
      (List.forall_mem_cons.mpr ⟨htext, List.forall_mem_singleton.mpr hcomma⟩)
      (by simp [str]) (by decide +kernel)]
  simp

/-- **Each statement is read as its template, with the credentials in its literals, if and only if
it fits and they are harmless**; the template of the first has 61 bytes beside the username, that of
the second 51. -/
theorem queries_read_iff (hu : 0 ∉ username) (hp : 0 ∉ password) :
    (mysql.read .text (verifyQuery username) = some (verifyTemplate username) ↔
      61 + username.length ≤ 255 ∧ Harmless username) ∧
    (mysql.read .text (registerQuery username password)
        = some (registerTemplate username password) ↔
      51 + username.length + password.length ≤ 255 ∧ Harmless username ∧ Harmless password) :=
  ⟨verifyQuery_read_iff hu, registerQuery_read_iff hu hp⟩

/-- A username of letters, and a password with a backslash that MySQL keeps. -/
theorem queries_read_iff_alice :
    mysql.read .text (verifyQuery (str "alice")) = some (verifyTemplate (str "alice")) ∧
    mysql.read .text (registerQuery (str "alice") (str "50\\%"))
      = some (registerTemplate (str "alice") (str "50\\%")) := by
  have halice : Harmless (str "alice") := plain_iff_harmless.mp (by
    refine .char ?_ ?_ (.char ?_ ?_ (.char ?_ ?_ (.char ?_ ?_ (.char ?_ ?_ .nil)))) <;> decide)
  have hpercent : Harmless (str "50\\%") := plain_iff_harmless.mp (by
    refine .char ?_ ?_ (.char ?_ ?_ (.kept ?_ .nil)) <;> decide)
  have h := @queries_read_iff (str "alice") (str "50\\%") (by decide +kernel) (by decide +kernel)
  exact ⟨h.1.mpr ⟨by decide +kernel, halice⟩, h.2.mpr ⟨by decide +kernel, halice, hpercent⟩⟩

/-- **A form whose username ends its literal**: the statement that looks it up selects every
user. -/
theorem not_queries_read_or :
    (parseEncodedUrl { blank with body := str "username='or'1&password=x" }).post.get
      (str "username") = str "'or'1" ∧
    mysql.read .text (verifyQuery (str "'or'1")) = some (pieces
      [(str "SELECT username, password FROM user WHERE username=", []), (str "or", str "1")]
      (str " LIMIT 1")) ∧
    mysql.read .text (verifyQuery (str "'or'1")) ≠ some (verifyTemplate (str "'or'1")) := by
  decide +kernel

end HttpRequest

end WebServer
