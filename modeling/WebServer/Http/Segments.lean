import WebServer.Http.Form

/-!
# Http/Segments — form segments without a `=`

Such a segment has no key of its own; the decoder stores its text under the last key it has read.
The `if` behind its loop, which is there for a `&` at the end, never applies.
-/

namespace WebServer

namespace HttpRequest

variable {segs front back : List Segment} {key k v x : Bytes} {d : Dict}

def Segment.isPair : Segment → Bool
  | .pair _ _ => true
  | .extra _ => false

/-- What the segments up to the next pair leave under the key before them: the text of the last. -/
def override : List Segment → Option Bytes
  | .extra text :: segs => (override segs).or (some (decode text))
  | _ => none

/-! ## The value of one key -/

theorem setAll_cons (d : Dict) (h : Bytes × Bytes) (pairs : List (Bytes × Bytes)) :
    setAll d (h :: pairs) = setAll (d.set h.1 h.2) pairs := rfl

/-- Segments that follow another key, and have no pair with this one, leave its value. -/
theorem setAll_other (hkey : key ≠ x)
    (hsegs : ∀ k v, Segment.pair k v ∈ segs → decode k ≠ x) (d : Dict) :
    setAll d (assigned key segs) x = d x := by
  induction segs generalizing key d with
  | nil => rfl
  | cons g segs ih =>
    have hkey' : (g.read key).1 ≠ x := by
      cases g with
      | pair k v => exact hsegs k v List.mem_cons_self
      | extra text => exact hkey
    rw [assigned, setAll_cons, ih hkey' fun k v hmem => hsegs k v (List.mem_cons_of_mem _ hmem)]
    exact Dict.set_of_ne hkey'.symm _ _

/-- …and those that follow this key leave what `override` says. -/
theorem setAll_override (hsegs : ∀ k v, Segment.pair k v ∈ segs → decode k ≠ x) (d : Dict) :
    setAll d (assigned x segs) x = (override segs).or (d x) := by
  induction segs generalizing d with
  | nil => rfl
  | cons g segs ih =>
    have hrest : ∀ k v, Segment.pair k v ∈ segs → decode k ≠ x := fun k v hmem =>
      hsegs k v (List.mem_cons_of_mem _ hmem)
    rw [assigned, setAll_cons]
    cases g with
    | pair k v =>
      have hne := hsegs k v List.mem_cons_self
      exact (setAll_other hne hrest _).trans (Dict.set_of_ne hne.symm _ _)
    | extra text =>
      refine (ih hrest _).trans ?_
      rw [override, Option.or_assoc]
      exact congrArg _ (Dict.set_self d x (decode text))

/-- **The value of a key** is that of its last pair, unless segments without a `=` follow it. -/
theorem setAll_last (hlast : ∀ k' v', Segment.pair k' v' ∈ back → decode k' ≠ decode k) (d : Dict)
    (key : Bytes) :
    setAll d (assigned key (front ++ .pair k v :: back)) (decode k)
      = (override back).or (some (decode v)) := by
  induction front generalizing key d with
  | nil =>
    rw [List.nil_append, assigned, setAll_cons]
    exact (setAll_override hlast _).trans (congrArg _ (Dict.set_self d (decode k) (decode v)))
  | cons g front ih => exact ih _ _

/-- The last pair with a key that occurs. -/
theorem exists_last (hmem : Segment.pair k v ∈ segs) :
    ∃ front k' v' back, segs = front ++ .pair k' v' :: back ∧ decode k' = decode k ∧
      ∀ k'' v'', Segment.pair k'' v'' ∈ back → decode k'' ≠ decode k' := by
  induction segs generalizing k v with
  | nil => cases hmem
  | cons g segs ih =>
    by_cases hlater : ∃ k' v', Segment.pair k' v' ∈ segs ∧ decode k' = decode k
    · obtain ⟨k', v', hmem', heq⟩ := hlater
      obtain ⟨front, k₁, v₁, back, rfl, heq', hlast⟩ := ih hmem'
      exact ⟨g :: front, k₁, v₁, back, rfl, heq'.trans heq, hlast⟩
    · obtain rfl | hmem := List.mem_cons.mp hmem
      · exact ⟨[], k, v, segs, rfl, rfl, fun k' v' hmem' heq => hlater ⟨k', v', hmem', heq⟩⟩
      · exact absurd ⟨k, v, hmem, rfl⟩ hlater

/-- Pairs alone override nothing. -/
theorem override_filter (segs : List Segment) : override (segs.filter Segment.isPair) = none := by
  induction segs with
  | nil => rfl
  | cons g segs ih =>
    cases g with
    | pair k v => rfl
    | extra text => exact ih

/-! ## Fields that are kept -/

/-- The segments without a `=` take no field away: every key that occurs in a pair, and is not
empty, is given the value that it is given by the pairs alone. -/
def KeepsFields (r : HttpRequest) (segs : List Segment) : Prop :=
  ∀ k v, Segment.pair k v ∈ segs → decode k ≠ [] →
    { r with body := join segs }.parseEncodedUrl.post (decode k) =
      { r with body := join (segs.filter Segment.isPair) }.parseEncodedUrl.post (decode k)

/-- Where the last pair of a key is followed by segments without a `=`, the last of them says its
value again. -/
def Repeats (segs : List Segment) : Prop :=
  ∀ front k v back, segs = front ++ .pair k v :: back → decode k ≠ [] →
    (∀ k' v', Segment.pair k' v' ∈ back → decode k' ≠ decode k) →
    ∀ text ∈ override back, text = decode v

theorem post_join (r : HttpRequest) (hne : segs ≠ []) (hsegs : ∀ g ∈ segs, g.Unsplit) :
    { r with body := join segs }.parseEncodedUrl.post = setAll r.post (assigned [] segs) := by
  obtain ⟨body, h⟩ := parseEncodedUrl_eq { r with body := join segs }
  rw [h]
  exact foldl_join hne hsegs r.post []

/-- The value of a key with the segments without a `=`, and without them. -/
theorem post_last (r : HttpRequest) (hsegs : ∀ g ∈ segs, g.Unsplit)
    (hsplit : segs = front ++ .pair k v :: back)
    (hlast : ∀ k' v', Segment.pair k' v' ∈ back → decode k' ≠ decode k) :
    { r with body := join segs }.parseEncodedUrl.post (decode k)
      = (override back).or (some (decode v)) ∧
    { r with body := join (segs.filter Segment.isPair) }.parseEncodedUrl.post (decode k)
      = some (decode v) := by
  subst hsplit
  constructor
  · rw [post_join r (by simp) hsegs, setAll_last hlast]
  · have hfilter : (front ++ .pair k v :: back).filter Segment.isPair
        = front.filter Segment.isPair ++ .pair k v :: back.filter Segment.isPair := by
      rw [List.filter_append, List.filter_cons_of_pos rfl]
    rw [post_join r (hfilter ▸ by simp) fun g hg => hsegs g (List.mem_of_mem_filter hg), hfilter,
      setAll_last fun k' v' hmem => hlast k' v' (List.mem_of_mem_filter hmem), override_filter,
      Option.none_or]

/-- **Segments without a `=` take no field away if and only if the last one behind the last pair of
a key repeats its value.** -/
theorem keepsFields_iff (r : HttpRequest) (hsegs : ∀ g ∈ segs, g.Unsplit) :
    KeepsFields r segs ↔ Repeats segs := by
  constructor
  · intro hkeeps front k v back hsplit hk hlast text htext
    obtain ⟨hwith, hwithout⟩ := post_last r hsegs hsplit hlast
    have hsame := hkeeps k v (hsplit ▸ by simp) hk
    rw [hwith, hwithout, Option.mem_def.mp htext] at hsame
    exact Option.some.inj hsame
  · intro hrepeats k v hmem hk
    obtain ⟨front, k', v', back, hsplit, heq, hlast⟩ := exists_last hmem
    obtain ⟨hwith, hwithout⟩ := post_last r hsegs hsplit hlast
    rw [← heq, hwith, hwithout]
    cases hover : override back with
    | none => rfl
    | some text =>
      exact congrArg some (hrepeats front k' v' back hsplit (heq ▸ hk) hlast text hover)

/-- The body `note=&`. -/
theorem keepsFields_iff_note : KeepsFields blank [.pair (str "note") [], .extra []] := by
  refine (keepsFields_iff blank (by decide +kernel)).mpr ?_
  intro front k v back hsplit _ _ text htext
  rcases front with _ | ⟨g, _ | ⟨g', front⟩⟩
  · obtain ⟨hpair, rfl⟩ := List.cons.inj hsplit
    cases hpair
    cases htext
    rfl
  · simp at hsplit
  · simp at hsplit

/-- **A `&` at the end** of the form that is posted to log in: the password is gone. -/
theorem not_keepsFields_login :
    join [.pair (str "username") (str "alice"), .pair (str "password") (str "x"), .extra []]
      = str "username=alice&password=x&" ∧
    { blank with body := str "username=alice&password=x&" }.parseEncodedUrl.post (str "password")
      = some [] ∧
    ¬ KeepsFields blank
      [.pair (str "username") (str "alice"), .pair (str "password") (str "x"), .extra []] := by
  have hbody : join [.pair (str "username") (str "alice"), .pair (str "password") (str "x"),
      .extra []] = str "username=alice&password=x&" := by decide +kernel
  refine ⟨hbody, by decide +kernel, fun hkeeps => ?_⟩
  have hsame := hkeeps (str "password") (str "x") (by decide +kernel) (by decide +kernel)
  exact absurd hsame (by decide +kernel)

end HttpRequest

end WebServer
