import WebServer.Http.Head
import WebServer.Http.Message
import WebServer.Machinery.Walk

/-!
# Http/Confine — the names a response gives to the file system, and where they lead

A response looks for its file under `_src_dir + _path`.  The path goes to the system as the client
sent it, so where it leads depends on its `..`: the resolution of the name never leaves `_src_dir`
if and only if the path has at no point more of them than of the names they take back.
-/

namespace WebServer

/-! ## Paths -/

section Path

open Move

def SLASH : Byte := '/'.toUInt8

/-- The components of a path; repeated slashes count as one. -/
def components (path : Bytes) : List Bytes := (path.splitOn SLASH).filter (· ≠ [])

def move (component : Bytes) : Move Bytes :=
  if component = str "." then .stay
  else if component = str ".." then .up
  else .down component

/-- The walk that a path describes. -/
def moves (path : Bytes) : List (Move Bytes) := (components path).map move

/-- Where an absolute path leads. -/
def resolve (path : Bytes) : List Bytes := walk [] (moves path)

/-- **Resolving `name` never leaves the directory `dir`**: it leads there first, and from then on no
component leads to a place outside. -/
def Confined (dir name : Bytes) : Prop :=
  moves dir <+: moves name ∧
    ∀ ms, moves dir <+: ms → ms <+: moves name → resolve dir <:+ walk [] ms

variable {dir path : Bytes}

theorem components_append (dir path : Bytes) :
    components (dir ++ SLASH :: path) = components dir ++ components path := by
  rw [components, List.splitOn_append_cons_self, List.filter_append]
  rfl

theorem moves_append (dir path : Bytes) :
    moves (dir ++ SLASH :: path) = moves dir ++ moves path := by
  rw [moves, components_append, List.map_append]
  rfl

theorem cstr_append (h : 0 ∉ dir) : cstr (dir ++ path) = dir ++ cstr path := by
  rw [cstr, List.takeWhile_append_of_pos fun c hc => by simpa using ne_of_mem_of_not_mem hc h]
  rfl

/-- **A path into a directory stays there if and only if its walk is level.** -/
theorem confined_iff (hdir : resolve (dir ++ [SLASH]) ≠ []) :
    Confined (dir ++ [SLASH]) (dir ++ [SLASH] ++ path) ↔ Level (moves path) := by
  have hnil : moves (dir ++ [SLASH]) = moves dir := by
    rw [moves_append]
    exact List.append_nil _
  have hmoves : moves (dir ++ [SLASH] ++ path) = moves dir ++ moves path := by
    rw [List.append_assoc]
    exact moves_append dir path
  rw [resolve, hnil] at hdir
  rw [Confined, hmoves, hnil, resolve, hnil, ← stays_iff hdir]
  refine ⟨fun h pre hpre => ?_, fun h => ⟨List.prefix_append _ _, fun ms hms hpre => ?_⟩⟩
  · rw [← walk_append]
    exact h.2 _ (List.prefix_append _ _) ((List.prefix_append_right_inj _).mpr hpre)
  · obtain ⟨pre, rfl⟩ := hms
    rw [walk_append]
    exact h pre ((List.prefix_append_right_inj _).mp hpre)

end Path

namespace HttpResponse

variable (r : HttpResponse) (sys : Sys)

/-- The names that one `makeResponse` gives to `stat`, of the file and of the error page if there is
one, and to `open`. -/
def names : List Bytes :=
  r.fileName :: (r.page sys).toList.map (fun page => cstr (r.srcDir ++ page))
    ++ [(r.settled sys).fileName]

variable {r sys}

theorem fileName_init (r : HttpResponse) (srcDir path : Bytes) (keepAlive : Bool) (code : ℤ) :
    (r.init srcDir path keepAlive code).1.fileName = cstr (srcDir ++ path) := by
  rw [init, unmapFile]
  cases r.file <;> rfl

/-- **`makeResponse` asks for no other names**: it does the same on a system that answers these as
`sys` does. -/
theorem makeResponse_congr {sys' : Sys} {buf : Buffer}
    (hstat : ∀ name ∈ r.names sys, sys'.stat name = sys.stat name)
    (hpage : ∀ name ∈ r.names sys, sys'.statPage name = sys.statPage name)
    (hopen : ∀ name ∈ r.names sys, sys'.openFile name = sys.openFile name)
    (hmmap : sys'.mmap = sys.mmap) : r.makeResponse sys' buf = r.makeResponse sys buf := by
  have hfile : sys'.stat r.fileName = sys.stat r.fileName := hstat _ (by simp [names])
  have hpages : r.page sys' = r.page sys := by rw [page, hfile, page]
  have hsettled : r.settled sys' = r.settled sys := by
    rw [settled_eq, settled_eq, hpages, hfile]
    cases hp : r.page sys with
    | none => rfl
    | some page =>
      rw [Option.bind_some, Option.bind_some, hpage _ (by simp [names, hp])]
  have hlast : sys'.openFile (r.settled sys).fileName = sys.openFile (r.settled sys).fileName :=
    hopen _ (by simp [names])
  have hcontent : ∀ b, (r.settled sys).addContent sys' b = (r.settled sys).addContent sys b := by
    intro b
    rw [addContent, addContent, hmmap, ← fileName, hlast]
  have hmake : ∀ sys, r.makeResponse sys buf = (do
      let b ← buf.append (r.settled sys).stateLine
      let b ← (r.settled sys).addHeader b
      (r.settled sys).addContent sys b) := fun sys => by
    simp only [makeResponse, addStateLine_eq, bind_assoc, pure_bind]
    rfl
  rw [hmake, hmake, hsettled]
  simp only [hcontent]

/-- The pages of the errors are in the directory itself. -/
theorem moves_page {page : Bytes} (h : r.page sys = some page) :
    ∃ name, moves (cstr page) = [.down name] := by
  rw [HttpResponse.page] at h
  obtain hst | hst | hst := status_cases (sys.stat r.fileName) <;> rw [hst] at h
  · obtain rfl : str "/404.html" = page := Option.some.inj h
    exact ⟨str "404.html", rfl⟩
  · obtain rfl : str "/403.html" = page := Option.some.inj h
    exact ⟨str "403.html", rfl⟩
  · cases h

/-- **The names stay in the source directory if and only if the path's walk is level**, whatever the
system answers: in no initial part of it are there more `..` than names. -/
theorem names_confined_iff (r : HttpResponse) (sys : Sys) {d : Bytes}
    (hdir : r.srcDir = d ++ str "/resources/") (hnul : 0 ∉ r.srcDir) :
    (∀ name ∈ r.names sys, Confined r.srcDir name) ↔ Move.Level (moves (cstr r.path)) := by
  have hsrc : r.srcDir = d ++ str "/resources" ++ [SLASH] := by
    rw [hdir, List.append_assoc]
    rfl
  have hresolve : resolve (d ++ str "/resources" ++ [SLASH]) ≠ [] := by
    have hmoves : moves (d ++ str "/resources" ++ [SLASH])
        = moves d ++ [.down (str "resources")] := by
      rw [List.append_assoc]
      exact moves_append d (str "resources/")
    rw [resolve, hmoves, Move.walk_concat]
    exact List.cons_ne_nil _ _
  have hname : ∀ path, Confined r.srcDir (cstr (r.srcDir ++ path)) ↔
      Move.Level (moves (cstr path)) := by
    intro path
    rw [cstr_append hnul, hsrc]
    exact confined_iff hresolve
  refine ⟨fun h => (hname r.path).mp (h _ (by simp [names, fileName])), fun h name hmem => ?_⟩
  have hlast : (r.settled sys).fileName = cstr (r.srcDir ++ (r.page sys).getD r.path) := by
    rw [fileName, settled_eq]
  rw [names, hlast, fileName] at hmem
  cases hpage : r.page sys with
  | none =>
    rw [hpage] at hmem
    obtain rfl : name = cstr (r.srcDir ++ r.path) := by simpa using hmem
    exact (hname r.path).mpr h
  | some page =>
    rw [hpage] at hmem
    obtain rfl | rfl : name = cstr (r.srcDir ++ r.path) ∨ name = cstr (r.srcDir ++ page) := by
      simpa using hmem
    · exact (hname r.path).mpr h
    · obtain ⟨file, hfile⟩ := moves_page hpage
      rw [hname, hfile]
      exact Move.level_down file

/-- A path that goes up again. -/
theorem names_confined_iff_sub : ∃ (r : HttpResponse) (sys : Sys),
    r.path = str "/a/../b/c.html" ∧ ∀ name ∈ r.names sys, Confined r.srcDir name := by
  have hdir : str "/srv/resources/" = str "/srv" ++ str "/resources/" := by decide +kernel
  have hlevel : Move.Level (moves (cstr (str "/a/../b/c.html"))) := by decide +kernel
  refine ⟨{ new with srcDir := str "/srv/resources/", path := str "/a/../b/c.html" },
    ⟨fun _ => none, fun _ => none, fun _ => none, fun _ _ => none⟩, rfl, ?_⟩
  exact (names_confined_iff _ _ hdir (by decide +kernel)).mpr hlevel

/-- **A request that is accepted and leads out of the source directory**, to `/etc/passwd`: the file
is looked up there, and opened if it can be read by all. -/
theorem not_names_confined_passwd : ∃ (r : HttpRequest) (b : Buffer),
    HttpRequest.blank.parse HttpRequest.noDb
      (HttpRequest.bufferOf (str "GET /../../etc/passwd HTTP/1.1\r\n\r\n")) = .ok (true, r, b) ∧
    ∀ sys old keepAlive, ∃ name ∈ names
        (init old (str "/srv/resources/") r.path keepAlive 200).1 sys,
      resolve name = [str "passwd", str "etc"] ∧ ¬ Confined (str "/srv/resources/") name := by
  obtain ⟨r, b, hparse, hpath⟩ : ∃ r b, HttpRequest.blank.parse HttpRequest.noDb
      (HttpRequest.bufferOf (str "GET /../../etc/passwd HTTP/1.1\r\n\r\n")) = .ok (true, r, b) ∧
      r.path = str "/../../etc/passwd" := ⟨_, _, rfl, rfl⟩
  refine ⟨r, b, hparse, fun sys old keepAlive => ?_⟩
  refine ⟨str "/srv/resources//../../etc/passwd", ?_, ?_, ?_⟩
  · have hname : str "/srv/resources//../../etc/passwd"
        = cstr (str "/srv/resources/" ++ str "/../../etc/passwd") := by decide +kernel
    rw [hname, hpath, ← fileName_init old _ _ keepAlive 200]
    exact List.mem_cons_self
  · decide +kernel
  · have hlevel : ¬ Move.Level (moves (str "/../../etc/passwd")) := by decide +kernel
    have hiff : Confined (str "/srv/resources" ++ [SLASH])
        (str "/srv/resources" ++ [SLASH] ++ str "/../../etc/passwd") ↔
          Move.Level (moves (str "/../../etc/passwd")) := confined_iff (by decide +kernel)
    exact fun h => hlevel (hiff.mp h)

end HttpResponse

end WebServer
