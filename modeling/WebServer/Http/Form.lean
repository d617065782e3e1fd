import WebServer.Http.Request

/-!
# Http/Form — decoding undoes encoding

The loop of `_parseEncodedUrl` keeps places in `_body`.  `Field` is what it does read byte by byte:
the pairs so far, the key before the last `=`, and the text since the last mark.  `assigned` is what
it stores of a body, segment by segment; of an encoded form, these are the form's pairs.
-/

namespace WebServer

namespace HttpRequest

def PLUS : Byte := '+'.toUInt8

def EQUALS : Byte := '='.toUInt8

def AMPERSAND : Byte := '&'.toUInt8

/-- The scan of a form. -/
structure Field where
  post : Dict
  key : Bytes
  text : Bytes

/-- It reads one byte. -/
def Field.next (f : Field) (c : Byte) : Field :=
  if c = PLUS then { f with text := f.text ++ [SP] }
  else if c = EQUALS then { f with key := f.text, text := [] }
  else if c = AMPERSAND then { f with post := f.post.set f.key f.text, text := [] }
  else { f with text := f.text ++ [c] }

/-- What is stored of a form once it is read. -/
def Field.stored (f : Field) : Dict := f.post.set f.key f.text

/-! ## The loop reads byte by byte -/

variable {body s : Bytes} {n : ℕ} {scan : FormScan} {f : Field}

theorem substr_succ {start : ℕ} (hstart : start ≤ n) (hn : n < s.length) :
    substr s start (n + 1 - start) = substr s start (n - start) ++ [s[n]] := by
  have hlen : n - start < (s.drop start).length := by
    rw [List.length_drop]
    omega
  have hget : (s.drop start)[n - start] = s[n] := by
    simp only [List.getElem_drop, Nat.add_sub_cancel' hstart]
  rw [substr, substr, Nat.succ_sub hstart, List.take_succ_eq_append_getElem hlen, hget]

theorem substr_set {start : ℕ} (hstart : start ≤ n) (c : Byte) :
    substr (s.set n c) start (n - start) = substr s start (n - start) := by
  rw [substr, substr, List.drop_set, if_neg (not_lt.mpr hstart), List.take_set_of_le le_rfl]

theorem pass_eq (scan : FormScan) (n : ℕ) : scan.pass n =
    if scan.body.getD n 0 = PLUS then { scan with body := scan.body.set n SP }
    else if scan.body.getD n 0 = EQUALS then
      { scan with key := substr scan.body scan.start (n - scan.start), start := n + 1 }
    else if scan.body.getD n 0 = AMPERSAND then
      { scan with
        value := substr scan.body scan.start (n - scan.start), start := n + 1
        post := scan.post.set scan.key (substr scan.body scan.start (n - scan.start)) }
    else scan := rfl

/-- After `n` passes the loop has read the first `n` bytes. -/
structure Tracks (body : Bytes) (n : ℕ) (scan : FormScan) (f : Field) : Prop where
  length : scan.body.length = body.length
  start_le : scan.start ≤ n
  rest : scan.body.drop n = body.drop n
  post : scan.post = f.post
  key : scan.key = f.key
  text : substr scan.body scan.start (n - scan.start) = f.text

theorem Tracks.pass (h : Tracks body n scan f) (hn : n < body.length) :
    Tracks body (n + 1) (scan.pass n) (f.next body[n]) := by
  have hn' : n < scan.body.length := h.length ▸ hn
  have hcons : scan.body[n] = body[n] ∧ scan.body.drop (n + 1) = body.drop (n + 1) := by
    have hrest := h.rest
    rw [List.drop_eq_getElem_cons hn', List.drop_eq_getElem_cons hn] at hrest
    exact List.cons.inj hrest
  obtain ⟨hget, hdrop⟩ := hcons
  have hstart := h.start_le
  -- After a mark the text is empty again.
  have hempty : substr scan.body (n + 1) (n + 1 - (n + 1)) = [] := by
    rw [Nat.sub_self, substr, List.take_zero]
  rw [pass_eq, Field.next, List.getD_eq_getElem _ _ hn', hget]
  by_cases hplus : body[n] = PLUS
  · rw [if_pos hplus, if_pos hplus]
    refine ⟨?_, hstart.trans (Nat.le_succ n), ?_, h.post, h.key, ?_⟩
    · rw [List.length_set]
      exact h.length
    · rw [List.drop_set_of_lt (Nat.lt_succ_self n), hdrop]
    · show substr (scan.body.set n SP) scan.start (n + 1 - scan.start) = f.text ++ [SP]
      rw [substr_succ hstart (by rwa [List.length_set]), substr_set hstart, h.text,
        List.getElem_set_self]
  rw [if_neg hplus, if_neg hplus]
  by_cases hequals : body[n] = EQUALS
  · rw [if_pos hequals, if_pos hequals]
    exact ⟨h.length, le_rfl, hdrop, h.post, h.text, hempty⟩
  rw [if_neg hequals, if_neg hequals]
  by_cases hamp : body[n] = AMPERSAND
  · rw [if_pos hamp, if_pos hamp]
    refine ⟨h.length, le_rfl, hdrop, ?_, h.key, hempty⟩
    show scan.post.set scan.key (substr scan.body scan.start (n - scan.start)) = _
    rw [h.post, h.key, h.text]
  rw [if_neg hamp, if_neg hamp]
  refine ⟨h.length, hstart.trans (Nat.le_succ n), hdrop, h.post, h.key, ?_⟩
  rw [substr_succ hstart hn', h.text, hget]

theorem Tracks.passes (body : Bytes) (post : Dict) (hn : n ≤ body.length) :
    Tracks body n ((List.range n).foldl FormScan.pass ⟨body, [], [], 0, post⟩)
      ((body.take n).foldl Field.next ⟨post, [], []⟩) := by
  induction n with
  | zero => exact ⟨rfl, le_rfl, rfl, rfl, rfl, rfl⟩
  | succ n ih =>
    rw [List.range_succ, List.foldl_append, List.take_succ_eq_append_getElem hn, List.foldl_append]
    exact (ih (Nat.le_of_succ_le hn)).pass hn

/-- **What `_parseEncodedUrl` does**: it stores what the body says, byte by byte, and touches
nothing else but the body. -/
theorem parseEncodedUrl_eq (r : HttpRequest) : ∃ body, r.parseEncodedUrl =
    { r with body, post := (r.body.foldl Field.next ⟨r.post, [], []⟩).stored } := by
  have h := Tracks.passes r.body r.post le_rfl
  rw [List.take_length] at h
  refine ⟨((List.range r.body.length).foldl FormScan.pass ⟨r.body, [], [], 0, r.post⟩).body, ?_⟩
  rw [parseEncodedUrl]
  rw [if_neg (not_lt.mpr h.start_le), h.post, h.key, h.text, Field.stored]

/-! ## The segments between two `&` -/

/-- What lies between two `&`: `key=value`, or text without a `=`. -/
inductive Segment where
  | pair (key value : Bytes)
  | extra (text : Bytes)
  deriving DecidableEq, Repr

/-- A segment as it stands in the body. -/
def Segment.print : Segment → Bytes
  | .pair key value => key ++ EQUALS :: value
  | .extra text => text

/-- The body with these segments. -/
def join (segs : List Segment) : Bytes := List.intercalate [AMPERSAND] (segs.map Segment.print)

theorem join_cons (g g' : Segment) (segs : List Segment) :
    join (g :: g' :: segs) = g.print ++ AMPERSAND :: join (g' :: segs) := by
  rw [join, List.map_cons, List.map_cons, List.intercalate_cons_cons, List.append_assoc]
  rfl

/-- Text of one segment, on one side of a `=`. -/
def Unsplit (s : Bytes) : Prop := ∀ c ∈ s, c ≠ EQUALS ∧ c ≠ AMPERSAND

instance (s : Bytes) : Decidable (Unsplit s) :=
  inferInstanceAs (Decidable (∀ c ∈ s, c ≠ EQUALS ∧ c ≠ AMPERSAND))

def Segment.Unsplit : Segment → Prop
  | .pair key value => HttpRequest.Unsplit key ∧ HttpRequest.Unsplit value
  | .extra text => HttpRequest.Unsplit text

instance : DecidablePred Segment.Unsplit
  | .pair _ _ => inferInstanceAs (Decidable (_ ∧ _))
  | .extra text => inferInstanceAs (Decidable (HttpRequest.Unsplit text))

/-- The text with a space for each `+`. -/
def decode (s : Bytes) : Bytes := s.map fun c => if c = PLUS then SP else c

theorem foldl_unsplit (hs : Unsplit s) (f : Field) :
    s.foldl Field.next f = { f with text := f.text ++ decode s } := by
  induction s generalizing f with
  | nil => simp [decode]
  | cons c s ih =>
    obtain ⟨⟨hequals, hamp⟩, hs⟩ := List.forall_mem_cons.mp hs
    rw [List.foldl_cons, ih hs, Field.next]
    by_cases hplus : c = PLUS <;> simp [decode, hplus, hequals, hamp]

/-- What each segment makes of the pair that is stored behind it. -/
def Segment.read (key : Bytes) : Segment → Bytes × Bytes
  | .pair key value => (decode key, decode value)
  | .extra text => (key, decode text)

/-- A segment, read from where a segment begins. -/
theorem foldl_segment {g : Segment} (hg : g.Unsplit) (post : Dict) (key : Bytes) :
    g.print.foldl Field.next ⟨post, key, []⟩ = ⟨post, (g.read key).1, (g.read key).2⟩ := by
  cases g with
  | pair k v =>
    rw [Segment.print, List.foldl_append, foldl_unsplit hg.1, List.foldl_cons]
    exact foldl_unsplit hg.2 ⟨post, decode k, []⟩
  | extra text => exact foldl_unsplit hg ⟨post, key, []⟩

/-- What the segments store: one without a `=` has the key of the one before it. -/
def assigned (key : Bytes) : List Segment → List (Bytes × Bytes)
  | [] => []
  | g :: segs => g.read key :: assigned (g.read key).1 segs

/-- The pairs, stored in order. -/
def setAll (d : Dict) (pairs : List (Bytes × Bytes)) : Dict :=
  pairs.foldl (fun d h => d.set h.1 h.2) d

/-- **What the segments of a body assign is stored in order.** -/
theorem foldl_join {segs : List Segment} (hne : segs ≠ []) (hsegs : ∀ g ∈ segs, g.Unsplit)
    (post : Dict) (key : Bytes) :
    ((join segs).foldl Field.next ⟨post, key, []⟩).stored = setAll post (assigned key segs) := by
  induction segs generalizing post key with
  | nil => exact absurd rfl hne
  | cons g segs ih =>
    obtain ⟨hg, hsegs⟩ := List.forall_mem_cons.mp hsegs
    cases segs with
    | nil =>
      rw [join, List.map_singleton, List.intercalate_singleton, foldl_segment hg]
      rfl
    | cons g' segs =>
      rw [join_cons, List.foldl_append, foldl_segment hg, List.foldl_cons]
      exact ih (List.cons_ne_nil _ _) hsegs (post.set (g.read key).1 (g.read key).2) _

/-! ## An encoded form -/

/-- What a space is encoded as. -/
def plus (c : Byte) : Byte := if c = SP then PLUS else c

/-- A form: its pairs, as `key=value`, joined by `&`, with a `+` for each space. -/
def encode (pairs : List (Bytes × Bytes)) : Bytes :=
  (List.intercalate [AMPERSAND] (pairs.map fun h => h.1 ++ EQUALS :: h.2)).map plus

/-- Text that the encoding does not need to escape. -/
def Unmarked (s : Bytes) : Prop := ∀ c ∈ s, c ≠ PLUS ∧ c ≠ EQUALS ∧ c ≠ AMPERSAND

instance (s : Bytes) : Decidable (Unmarked s) :=
  inferInstanceAs (Decidable (∀ c ∈ s, c ≠ PLUS ∧ c ≠ EQUALS ∧ c ≠ AMPERSAND))

theorem decode_plus (hs : Unmarked s) : decode (s.map plus) = s := by
  rw [decode, List.map_map]
  conv_rhs => rw [← List.map_id s]
  refine List.map_congr_left fun c hc => ?_
  obtain ⟨hplus, -, -⟩ := hs c hc
  by_cases hsp : c = SP <;> simp [plus, hsp, hplus]

theorem unsplit_plus (hs : Unmarked s) : Unsplit (s.map plus) := by
  refine List.forall_mem_map.mpr fun c hc => ?_
  obtain ⟨-, hequals, hamp⟩ := hs c hc
  rw [plus]
  split
  · decide
  · exact ⟨hequals, hamp⟩

/-- A pair as a segment. -/
def Segment.ofPair (h : Bytes × Bytes) : Segment := .pair (h.1.map plus) (h.2.map plus)

theorem encode_eq_join (pairs : List (Bytes × Bytes)) :
    encode pairs = join (pairs.map Segment.ofPair) := by
  have hprint : ∀ h : Bytes × Bytes, (h.1 ++ EQUALS :: h.2).map plus = (Segment.ofPair h).print :=
    fun h => by simp [Segment.ofPair, Segment.print, plus, show EQUALS ≠ SP by decide]
  induction pairs with
  | nil => rfl
  | cons h pairs ih =>
    cases pairs with
    | nil =>
      rw [encode, join, List.map_singleton, List.map_singleton, List.map_singleton,
        List.intercalate_singleton, List.intercalate_singleton, hprint]
    | cons h' pairs =>
      have hcons : encode (h :: h' :: pairs)
          = (h.1 ++ EQUALS :: h.2).map plus ++ AMPERSAND :: encode (h' :: pairs) := by
        rw [encode, encode, List.map_cons, List.map_cons, List.intercalate_cons_cons]
        simp [plus, show AMPERSAND ≠ SP by decide]
      rw [hcons, hprint, ih]
      exact (join_cons _ _ _).symm

theorem assigned_ofPair {pairs : List (Bytes × Bytes)}
    (hpairs : ∀ h ∈ pairs, Unmarked h.1 ∧ Unmarked h.2) (key : Bytes) :
    assigned key (pairs.map Segment.ofPair) = pairs := by
  induction pairs generalizing key with
  | nil => rfl
  | cons h pairs ih =>
    obtain ⟨⟨hkey, hvalue⟩, hpairs⟩ := List.forall_mem_cons.mp hpairs
    rw [List.map_cons, assigned, ih hpairs, Segment.ofPair, Segment.read, decode_plus hkey,
      decode_plus hvalue]

/-- **Decoding undoes encoding.** -/
theorem parseEncodedUrl_encode (r : HttpRequest) {pairs : List (Bytes × Bytes)} (hne : pairs ≠ [])
    (hpairs : ∀ h ∈ pairs, Unmarked h.1 ∧ Unmarked h.2) (hbody : r.body = encode pairs) :
    ∃ body, r.parseEncodedUrl =
      { r with body, post := setAll r.post pairs } := by
  obtain ⟨body, h⟩ := parseEncodedUrl_eq r
  refine ⟨body, ?_⟩
  rw [h, hbody, encode_eq_join, foldl_join (by simpa using hne) ?_, assigned_ofPair hpairs]
  exact List.forall_mem_map.mpr fun g hg =>
    ⟨unsplit_plus (hpairs g hg).1, unsplit_plus (hpairs g hg).2⟩

/-- **A form that was encoded is read back**, the last value of a key winning. -/
theorem parseEncodedUrl_post (r : HttpRequest) {pairs : List (Bytes × Bytes)} (hne : pairs ≠ [])
    (hpairs : ∀ h ∈ pairs, Unmarked h.1 ∧ Unmarked h.2) (hpost : r.post = .empty)
    (hbody : r.body = encode pairs) : r.parseEncodedUrl.post = Dict.ofList pairs := by
  obtain ⟨body, h⟩ := parseEncodedUrl_encode r hne hpairs hbody
  rw [h, hpost]
  rfl

/-- A key with a space in it, twice, and an empty key. -/
def twice : List (Bytes × Bytes) :=
  [(str "full name", str "a b"), ([], str "c"), (str "full name", [])]

/-- A request with it for its body. -/
def twiceSent : HttpRequest := { blank with body := str "full+name=a+b&=c&full+name=" }

theorem parseEncodedUrl_post_twice :
    twiceSent.parseEncodedUrl.post (str "full name") = some [] ∧
      twiceSent.parseEncodedUrl.post [] = some (str "c") := by
  have hpost : twiceSent.parseEncodedUrl.post = Dict.ofList twice :=
    parseEncodedUrl_post _ (by decide) (by decide +kernel) rfl (by decide +kernel)
  rw [hpost]
  decide +kernel

/-- What a form carries is stored, whatever was stored before. -/
theorem setAll_of_ofList {pairs : List (Bytes × Bytes)} {key value : Bytes}
    (h : Dict.ofList pairs key = some value) (d : Dict) : setAll d pairs key = some value := by
  induction pairs using List.reverseRecOn with
  | nil => cases h
  | append_singleton pairs g ih =>
    rw [Dict.ofList, List.foldl_append] at h
    change (Dict.ofList pairs).set g.1 g.2 key = _ at h
    rw [setAll, List.foldl_append]
    show (setAll d pairs).set g.1 g.2 key = _
    by_cases heq : key = g.1
    · rw [heq, Dict.set_self] at h ⊢
      exact h
    · rw [Dict.set_of_ne heq] at h ⊢
      exact ih h

end HttpRequest

end WebServer
