import Mathlib.Logic.Function.Basic
import Mathlib.Data.List.Induction
import Imy.Lib.PathText
import Imy.Lib.Transition
set_option autoImplicit false

/-!
The file servers of `pkg/fileserver` around a router. What a file checker does under its
mutex is one step; between its look into the map and the opening of the file other requests
may open it too.
-/

namespace Imy.Fileserver
open Lib

/-- An entry of the configuration. -/
structure FileServer where
  apiPrefix : List Char
  dir : List Char
  deriving DecidableEq, Repr

/-- What the middleware reads of a request. -/
structure Request where
  method : String
  path : List Char
  deriving DecidableEq, Repr

def ensureTrailingSlash (upath : List Char) : List Char :=
  if ['/'] <:+ upath then upath else upath ++ ['/']

def ensureNoTrailingSlash (upath : List Char) : List Char :=
  if ['/'] <:+ upath then upath.take (upath.length-1) else upath

def openName (upath : List Char) : List Char :=
  let upath := (clean ('/' :: upath)).chars.drop 1
  if upath.length = 0 then ['.'] else upath

/-- What a serve checker asks its file checker about the request, if it does. -/
def serveCheck (server : FileServer) (r : Request) : Option (List Char) :=
  if r.method = "GET" ∧ ensureTrailingSlash server.apiPrefix <+: r.path then
    some (openName (r.path.drop (ensureTrailingSlash server.apiPrefix).length))
  else none

def strippedPath (server : FileServer) (r : Request) : List Char :=
  r.path.drop (ensureNoTrailingSlash server.apiPrefix).length

/-- The file behind a name that is opened in an `http.Dir`. -/
def dirOpen (dir name : List Char) : Path := join (if dir = [] then ['.'] else dir) (openName name)

inductive FileAnswer where
  | redirected
  | opened (file : Path)
  deriving DecidableEq, Repr

def indexPage : List Char := "/index.html".toList

/-- `ServeHTTP` of `http.FileServer`, which redirects to the directory of an index page. -/
def serveFile (dir upath : List Char) : FileAnswer :=
  let upath := if ['/'] <+: upath then upath else '/' :: upath
  if indexPage <:+ upath then .redirected else .opened (dirOpen dir (clean upath).chars)

/-- Where a request is: `canServe` of a file server, the checker that has found nothing in its
map, `http.FileServer` with the path it got, or the router. -/
inductive Visit where
  | arriving (k : Nat)
  | opening (k : Nat) (upath : List Char)
  | serving (k : Nat) (path : List Char)
  | routed
  deriving DecidableEq, Repr

structure Site (ι : Type) where
  /-- the map of each file checker -/
  fileChecker : Nat → List Char → Option Bool
  visits : ι → Visit

inductive SiteEvent (ι : Type) where
  | look (i : ι)
  /-- The file checker opens its file, and the file system answers. -/
  | fsOpen (i : ι) (exist : Bool)
  deriving DecidableEq, Repr

section Site
variable {ι : Type} [DecidableEq ι] (servers : List FileServer) (requests : ι → Request)

def decided (server : FileServer) (k : Nat) (r : Request) (exist : Bool) : Visit :=
  if exist then .serving k (strippedPath server r) else .arriving (k+1)

def lookStep (fileChecker : Nat → List Char → Option Bool) (k : Nat) (r : Request) : Visit :=
  match servers[k]? with
  | none => .routed
  | some server =>
    match serveCheck server r with
    | none => .arriving (k+1)
    | some upath =>
      match fileChecker k upath with
      | some exist => decided server k r exist
      | none => .opening k upath

def Site.next (site : Site ι) : SiteEvent ι → Option (Site ι)
  | .look i =>
    match site.visits i with
    | .arriving k =>
      some { site with
        visits := Function.update site.visits i (lookStep servers site.fileChecker k (requests i)) }
    | _ => none
  | .fsOpen i exist =>
    match site.visits i with
    | .opening k upath =>
      servers[k]?.map fun server =>
        { fileChecker := Function.update site.fileChecker k
            (Function.update (site.fileChecker k) upath (some exist))
          visits := Function.update site.visits i (decided server k (requests i) exist) }
    | _ => none

/-- `RunOptions` puts each file server around those before it, so that the last one is the
first to see a request. -/
def runOptions (conf : List FileServer) : List FileServer := conf.reverse

/-- The map that `RunOptions` fills, from directories to prefixes. -/
def storeAll (conf : List FileServer) : List Char → Option (List Char) :=
  conf.foldl (fun svrs svr => Function.update svrs svr.dir (some svr.apiPrefix)) fun _ => none

def newSite : Site ι := ⟨fun _ _ => none,fun _ => .arriving 0⟩

end Site

/-- The entries of the map, in an order in which `Range` may go through them. -/
structure Ranged (svrs : List Char → Option (List Char)) (order : List FileServer) : Prop where
  once : (order.map (·.dir)).Nodup
  stored : ∀ svr, svr ∈ order ↔ svrs svr.dir = some svr.apiPrefix

/-- `GetDlPath`, with the entries of the map in the order in which it is gone through. -/
def getDlPath (svrs : List FileServer) (absolutePath : List Char) : List Char :=
  match svrs.findSome? fun svr => (rel svr.dir absolutePath).map (join svr.apiPrefix) with
  | some downloadPath => downloadPath.chars
  | none => absolutePath

section Names
variable {server : FileServer} {r : Request} {upath : List Char}

theorem openName_eq (s : List Char) : ∃ es, PlainElems es ∧ clean ('/' :: s) = ⟨true,es⟩ ∧
    openName s = if es = [] then ['.'] else ['/'].intercalate es := by
  have hplain := plain_clean (rooted_clean_slash s)
  refine ⟨(clean ('/' :: s)).elems,hplain,?_,?_⟩
  · rw [← rooted_clean_slash s]
  · rw [openName,Path.chars,if_pos (rooted_clean_slash s),List.drop_one,List.tail_cons]
    by_cases hes : (clean ('/' :: s)).elems = []
    · rw [hes]
      rfl
    · rw [if_neg hes,if_neg]
      rw [List.length_eq_zero_iff]
      exact hplain.intercalate_ne_nil hes

theorem openName_congr {s t : List Char} (h : clean ('/' :: s) = clean ('/' :: t)) :
    openName s = openName t := by
  rw [openName,h,openName]

theorem dirOpen_below (dir s : List Char) : ∃ es, PlainElems es ∧ clean ('/' :: s) = ⟨true,es⟩ ∧
    dirOpen dir s = ⟨(clean dir).rooted,(clean dir).elems ++ es⟩ := by
  obtain ⟨es,hes,hclean,hname⟩ := openName_eq s
  refine ⟨es,hes,hclean,?_⟩
  have hdir : clean (if dir = [] then ['.'] else dir) = clean dir := by
    split
    · rename_i hdir
      rw [hdir]
      decide
    · rfl
  rw [dirOpen,hname]
  by_cases hnil : es = []
  · rw [if_pos hnil,join_dot,hdir,hnil,List.append_nil]
  · rw [if_neg hnil,hes.join_intercalate hnil,hdir]

theorem dirOpen_openName (dir s : List Char) : dirOpen dir (openName s) = dirOpen dir s := by
  obtain ⟨es,hes,hclean,hname⟩ := openName_eq s
  unfold dirOpen
  rw [openName_congr (t := s)]
  rw [hclean,hname]
  split
  · rename_i hnil
    rw [hnil]
    decide
  · exact hes.clean_intercalate

theorem dirOpen_clean (dir s : List Char) :
    dirOpen dir (clean ('/' :: s)).chars = dirOpen dir s := by
  unfold dirOpen
  rw [openName_congr (t := s)]
  rw [Path.chars,if_pos (rooted_clean_slash s),clean_slash_slash]
  obtain ⟨es,hes,hclean,-⟩ := openName_eq s
  rw [hclean,hes.clean_intercalate]

theorem serveFile_slash (dir s : List Char) : serveFile dir ('/' :: s) =
    if indexPage <:+ '/' :: s then .redirected else .opened (dirOpen dir s) := by
  have hslash : ['/'] <+: '/' :: s := List.prefix_append ['/'] s
  simp only [serveFile,if_pos hslash,dirOpen_clean]

theorem ensureTrailingSlash_eq (upath : List Char) :
    ensureTrailingSlash upath = ensureNoTrailingSlash upath ++ ['/'] := by
  unfold ensureTrailingSlash ensureNoTrailingSlash
  split
  · rename_i hsuffix
    obtain ⟨s,rfl⟩ := hsuffix
    simp
  · rfl

theorem strippedPath_of_trail {s : List Char}
    (h : r.path = ensureTrailingSlash server.apiPrefix ++ s) :
    strippedPath server r = '/' :: s := by
  rw [strippedPath,h,ensureTrailingSlash_eq,List.append_assoc,List.drop_left,List.singleton_append]

/-- `http.FileServer` opens the file that was checked, or redirects. -/
theorem serveFile_stripped (h : serveCheck server r = some upath) :
    serveFile server.dir (strippedPath server r) =
      if indexPage <:+ strippedPath server r then .redirected
        else .opened (dirOpen server.dir upath) := by
  unfold serveCheck at h
  split at h
  · rename_i hserve
    cases h
    obtain ⟨rest,hpath⟩ := hserve.2
    rw [dirOpen_openName,strippedPath_of_trail hpath.symm,serveFile_slash,← hpath,List.drop_left]
  · cases h

end Names

section Runs
variable {ι : Type} [DecidableEq ι] (servers : List FileServer) (requests : ι → Request)

/-- A file checker has opened the file in the course of the run, and this was the answer. -/
def Answered (events : List (SiteEvent ι)) (k : Nat) (upath : List Char) (exist : Bool) : Prop :=
  ∃ past i rest site, events = past ++ .fsOpen i exist :: rest ∧
    past.foldlM (Site.next servers requests) newSite = some site ∧ site.visits i = .opening k upath

/-- The file server cannot serve the request, or its file was not there. -/
def Refused (events : List (SiteEvent ι)) (k : Nat) (r : Request) : Prop :=
  ∀ server upath, servers[k]? = some server → serveCheck server r = some upath →
    Answered servers requests events k upath false

def Visit.Sound (events : List (SiteEvent ι)) (r : Request) : Visit → Prop
  | .arriving k => ∀ j < k, Refused servers requests events j r
  | .opening k upath => (∀ j < k, Refused servers requests events j r) ∧
    ∃ server, servers[k]? = some server ∧ serveCheck server r = some upath
  | .serving k path => (∀ j < k, Refused servers requests events j r) ∧
    ∃ server upath, servers[k]? = some server ∧ serveCheck server r = some upath ∧
      path = strippedPath server r ∧ Answered servers requests events k upath true
  | .routed => ∀ j, Refused servers requests events j r

structure SiteSound (events : List (SiteEvent ι)) (site : Site ι) : Prop where
  cached : ∀ k upath exist, site.fileChecker k upath = some exist →
    Answered servers requests events k upath exist
  visits : ∀ i, (site.visits i).Sound servers requests events (requests i)

variable {servers requests} {events : List (SiteEvent ι)} {site site' : Site ι} {e : SiteEvent ι}
  {k : Nat} {r : Request} {upath : List Char} {server : FileServer} {exist : Bool}

theorem Answered.concat (h : Answered servers requests events k upath exist) (e : SiteEvent ι) :
    Answered servers requests (events ++ [e]) k upath exist := by
  obtain ⟨past,i,rest,site,rfl,hrun,hvisit⟩ := h
  exact ⟨past,i,rest ++ [e],site,by simp,hrun,hvisit⟩

theorem Refused.concat (h : Refused servers requests events k r) (e : SiteEvent ι) :
    Refused servers requests (events ++ [e]) k r :=
  fun server upath hserver hcheck => (h server upath hserver hcheck).concat e

theorem Visit.Sound.concat {visit : Visit} (h : visit.Sound servers requests events r)
    (e : SiteEvent ι) :
    visit.Sound servers requests (events ++ [e]) r := by
  cases visit with
  | arriving k => exact fun j hj => (h j hj).concat e
  | opening k upath => exact ⟨fun j hj => (h.1 j hj).concat e,h.2⟩
  | serving k path =>
    obtain ⟨hbefore,server,upath,hserver,hcheck,hpath,hanswer⟩ := h
    exact ⟨fun j hj => (hbefore j hj).concat e,server,upath,hserver,hcheck,hpath,hanswer.concat e⟩
  | routed => exact fun j => (h j).concat e

theorem refused_below_succ (hbefore : ∀ j < k, Refused servers requests events j r)
    (hk : Refused servers requests events k r) :
    ∀ j < k+1, Refused servers requests events j r := by
  intro j hj
  rcases Nat.lt_succ_iff_lt_or_eq.mp hj with hj | rfl
  · exact hbefore j hj
  · exact hk

theorem sound_decided (hbefore : ∀ j < k, Refused servers requests events j r)
    (hserver : servers[k]? = some server)
    (hcheck : serveCheck server r = some upath)
    (hanswer : Answered servers requests events k upath exist) :
    (decided server k r exist).Sound servers requests events r := by
  cases exist with
  | true => exact ⟨hbefore,server,upath,hserver,hcheck,rfl,hanswer⟩
  | false =>
    refine refused_below_succ hbefore fun server' upath' hserver' hcheck' => ?_
    cases hserver.symm.trans hserver'
    cases hcheck.symm.trans hcheck'
    exact hanswer

theorem sound_look (hs : SiteSound servers requests events site)
    (hbefore : ∀ j < k, Refused servers requests events j r) :
    (lookStep servers site.fileChecker k r).Sound servers requests events r := by
  unfold lookStep
  split
  · rename_i hnone
    intro j
    rcases Nat.lt_or_ge j k with hj | hj
    · exact hbefore j hj
    · intro server upath hserver
      rw [List.getElem?_eq_none ((List.getElem?_eq_none_iff.mp hnone).trans hj)] at hserver
      cases hserver
  · rename_i server hserver
    split
    · rename_i hcheck
      refine refused_below_succ hbefore fun server' upath' hserver' hcheck' => ?_
      cases hserver.symm.trans hserver'
      rw [hcheck] at hcheck'
      cases hcheck'
    · rename_i upath hcheck
      split
      · rename_i exist hcached
        exact sound_decided hbefore hserver hcheck (hs.cached k upath exist hcached)
      · exact ⟨hbefore,server,hserver,hcheck⟩

theorem siteSound_new : SiteSound servers requests [] newSite where
  cached := nofun
  visits _ := nofun

theorem SiteSound.next (hs : SiteSound servers requests events site)
    (hrun : events.foldlM (Site.next servers requests) newSite = some site)
    (hstep : site.next servers requests e = some site') :
    SiteSound servers requests (events ++ [e]) site' := by
  cases e with
  | look i =>
    simp only [Site.next] at hstep
    split at hstep
    · rename_i k hvisit
      cases hstep
      refine ⟨fun k upath exist h => (hs.cached k upath exist h).concat _,fun j => ?_⟩
      dsimp only
      rcases eq_or_ne j i with rfl | hne
      · have hbefore := hs.visits j
        rw [hvisit] at hbefore
        rw [Function.update_self]
        exact (sound_look hs hbefore).concat _
      · rw [Function.update_of_ne hne]
        exact (hs.visits j).concat _
    · cases hstep
  | fsOpen i exist =>
    simp only [Site.next] at hstep
    split at hstep
    · rename_i k upath hvisit
      obtain ⟨server,hserver,rfl⟩ := Option.map_eq_some_iff.mp hstep
      have hanswer : Answered servers requests (events ++ [.fsOpen i exist]) k upath exist :=
        ⟨events,i,[],site,rfl,hrun,hvisit⟩
      refine ⟨fun k' upath' exist' h => ?_,fun j => ?_⟩
      · dsimp only at h
        rcases eq_or_ne k' k with rfl | hk
        · rw [Function.update_self] at h
          rcases eq_or_ne upath' upath with rfl | hu
          · rw [Function.update_self] at h
            cases h
            exact hanswer
          · rw [Function.update_of_ne hu] at h
            exact (hs.cached k' upath' exist' h).concat _
        · rw [Function.update_of_ne hk] at h
          exact (hs.cached k' upath' exist' h).concat _
      · dsimp only
        rcases eq_or_ne j i with rfl | hne
        · have hopening := hs.visits j
          rw [hvisit] at hopening
          obtain ⟨hbefore,server',hserver',hcheck⟩ := hopening
          cases hserver.symm.trans hserver'
          rw [Function.update_self]
          exact sound_decided (fun j hj => (hbefore j hj).concat _) hserver hcheck hanswer
        · rw [Function.update_of_ne hne]
          exact (hs.visits j).concat _
    · cases hstep

theorem siteSound_run (hrun : events.foldlM (Site.next servers requests) newSite = some site) :
    SiteSound servers requests events site := by
  induction events using List.reverseRecOn generalizing site with
  | nil =>
    cases hrun
    exact siteSound_new
  | append_singleton events e ih =>
    rw [runs_concat,Option.bind_eq_some_iff] at hrun
    obtain ⟨site₀,hbefore,hstep⟩ := hrun
    exact (ih hbefore).next hbefore hstep

/-- However requests come and go and whatever the file systems answer, a request is served by
a file server only after those asked before have refused it and the file was found, and goes
to the router only when all have refused it. The file that is then opened, if the request is
not redirected, is the one that was found, and lies below the directory of the file server. -/
theorem served_by_first_with_file (conf : List FileServer) (requests : ι → Request)
    (events : List (SiteEvent ι))
    (site : Site ι) (hrun : events.foldlM (Site.next (runOptions conf) requests) newSite =
      some site) (i : ι) :
    (∀ k path, site.visits i = .serving k path →
      (∀ j < k, Refused (runOptions conf) requests events j (requests i)) ∧
      ∃ server upath, (runOptions conf)[k]? = some server ∧
        serveCheck server (requests i) = some upath ∧
        Answered (runOptions conf) requests events k upath true ∧
        serveFile server.dir path =
          (if indexPage <:+ path then .redirected else .opened (dirOpen server.dir upath)) ∧
            ∃ es, PlainElems es ∧
          dirOpen server.dir upath = ⟨(clean server.dir).rooted,(clean server.dir).elems ++ es⟩) ∧
      (site.visits i = .routed → ∀ j, Refused (runOptions conf) requests events j
        (requests i)) := by
  have hsound := (siteSound_run hrun).visits i
  refine ⟨fun k path hvisit => ?_,fun hvisit => ?_⟩
  · rw [hvisit] at hsound
    obtain ⟨hbefore,server,upath,hserver,hcheck,rfl,hanswer⟩ := hsound
    obtain ⟨es,hes,-,hopen⟩ := dirOpen_below server.dir upath
    exact ⟨hbefore,server,upath,hserver,hcheck,hanswer,serveFile_stripped hcheck,es,hes,hopen⟩
  · rw [hvisit] at hsound
    exact hsound

end Runs

def staticAndApi : List FileServer :=
  [⟨"/api/static".toList,"/opt/s".toList⟩,⟨"/api".toList,"/opt/a".toList⟩]

def getStatic (_ : Nat) : Request := ⟨"GET","/api/static/b/../c".toList⟩

def foundBehind : List (SiteEvent Nat) := [.look 0,.fsOpen 0 false,.look 0,.fsOpen 0 true]

theorem served_by_first_with_file_found_behind :
    Refused (runOptions staticAndApi) getStatic foundBehind 0 (getStatic 0) ∧
    Answered (runOptions staticAndApi) getStatic foundBehind 1 ['c'] true ∧
    serveFile "/opt/s".toList "/b/../c".toList = .opened (dirOpen "/opt/s".toList ['c']) := by
  have hrun : (foundBehind.foldlM (Site.next (runOptions staticAndApi) getStatic) newSite).map
    (fun site => site.visits 0) =
      some (.serving 1 "/b/../c".toList) := by decide
  obtain ⟨site,hsite,hvisit⟩ := Option.map_eq_some_iff.mp hrun
  obtain ⟨hbefore,server,upath,hserver,hcheck,hanswer,hopen,-⟩ :=
    (served_by_first_with_file staticAndApi getStatic foundBehind site hsite 0).1 1 _ hvisit
  have hstatic : (runOptions staticAndApi)[1]? = some ⟨"/api/static".toList,"/opt/s".toList⟩ := by
    decide
  cases hstatic.symm.trans hserver
  have hname : serveCheck ⟨"/api/static".toList,"/opt/s".toList⟩ (getStatic 0) = some ['c'] := by
    decide
  cases hname.symm.trans hcheck
  rw [if_neg (by decide)] at hopen
  exact ⟨hbefore 0 Nat.one_pos,hanswer,hopen⟩

section Download
variable {svr : FileServer} {rest : List FileServer} {absolutePath : List Char}
    {es ts : List (List Char)}

/-- The prefix is a cleaned rooted path, with a slash at its end or without. -/
def PlainPrefix (apiPrefix : List Char) (es : List (List Char)) : Prop :=
  PlainElems es ∧ (apiPrefix = '/' :: ['/'].intercalate es ∨ es ≠ [] ∧
    apiPrefix = '/' :: ['/'].intercalate es ++ ['/'])

theorem PlainPrefix.clean {apiPrefix : List Char} (h : PlainPrefix apiPrefix es) :
    clean apiPrefix = ⟨true,es⟩ := by
  obtain ⟨hes,rfl | ⟨-,rfl⟩⟩ := h
  · exact hes.clean_intercalate
  · rw [clean_append_slash (List.cons_ne_nil _ _),hes.clean_intercalate]

theorem PlainPrefix.trail {apiPrefix : List Char} (h : PlainPrefix apiPrefix es) :
    ensureTrailingSlash apiPrefix = if es = [] then ['/']
      else '/' :: ['/'].intercalate es ++ ['/'] := by
  obtain ⟨hes,rfl | ⟨hne,rfl⟩⟩ := h
  · by_cases hne : es = []
    · rw [hne]
      decide
    · rw [ensureTrailingSlash,if_neg (hes.not_slash_suffix hne),if_neg hne]
  · rw [ensureTrailingSlash,if_pos (List.suffix_append _ _),if_neg hne]

theorem getDlPath_eq {way : List Char} (h : rel svr.dir absolutePath = some way) :
    getDlPath (svr :: rest) absolutePath = (join svr.apiPrefix way).chars := by
  rw [getDlPath,List.findSome?_cons,h]
  rfl

/-- The file server checks the file for a GET of the path and opens it. -/
def Opens (svr : FileServer) (path : List Char) (file : Path) : Prop :=
  ∃ upath, serveCheck svr ⟨"GET",path⟩ = some upath ∧ dirOpen svr.dir upath = file ∧
    serveFile svr.dir (strippedPath svr ⟨"GET",path⟩) = .opened file

theorem opens_trail_iff {s : List Char}
    (hpath : absolutePath = ensureTrailingSlash svr.apiPrefix ++ s)
    (file : Path) :
    Opens svr absolutePath file ↔ dirOpen svr.dir s = file ∧ ¬ indexPage <:+ '/' :: s := by
  have hcheck : serveCheck svr ⟨"GET",absolutePath⟩ = some (openName s) := by
    rw [serveCheck,if_pos ⟨rfl,⟨s,hpath.symm⟩⟩,hpath,List.drop_left]
  have hserve : serveFile svr.dir (strippedPath svr ⟨"GET",absolutePath⟩) =
      if indexPage <:+ '/' :: s then .redirected else .opened (dirOpen svr.dir s) := by
    rw [strippedPath_of_trail hpath,serveFile_slash]
  constructor
  · rintro ⟨upath,hupath,rfl,hopened⟩
    cases hcheck.symm.trans hupath
    rw [hserve] at hopened
    refine ⟨(dirOpen_openName ..).symm,fun hindex => ?_⟩
    rw [if_pos hindex] at hopened
    cases hopened
  · rintro ⟨rfl,hindex⟩
    exact ⟨openName s,hcheck,dirOpen_openName ..,by rw [hserve,if_neg hindex]⟩

theorem Opens.below {path : List Char} {file : Path} (h : Opens svr path file) :
    (clean svr.dir).elems <+: file.elems ∧ ensureTrailingSlash svr.apiPrefix <+: path := by
  obtain ⟨upath,hcheck,rfl,-⟩ := h
  unfold serveCheck at hcheck
  split at hcheck
  · rename_i hserve
    obtain ⟨ts,-,-,hopen⟩ := dirOpen_below svr.dir upath
    rw [hopen]
    exact ⟨List.prefix_append ..,hserve.2⟩
  · cases hcheck

theorem getDlPath_trail (rest : List FileServer) (hapi : PlainPrefix svr.apiPrefix es)
    (hdir : (clean svr.dir).rooted = true)
    (habs : (clean absolutePath).rooted = true) (hts : (clean absolutePath).elems =
      (clean svr.dir).elems ++ ts)
    (hplain : PlainElems ts) (hroot : ts = [] → es = []) :
    getDlPath (svr :: rest) absolutePath =
      ensureTrailingSlash svr.apiPrefix ++ ['/'].intercalate ts := by
  rcases eq_or_ne ts [] with rfl | hne
  · rw [List.append_nil] at hts
    rw [getDlPath_eq (rel_same hdir habs hts.symm),join_dot,hapi.clean,hapi.trail,hroot rfl]
    rfl
  · rw [getDlPath_eq (rel_below hdir habs hts hne),hplain.join_intercalate hne,
      hapi.clean,hapi.trail,
      Path.chars,if_pos rfl]
    by_cases hnil : es = []
    · rw [hnil]
      rfl
    · rw [if_neg hnil,hapi.1.intercalate_append hplain hnil hne]
      simp

theorem dirOpen_file (hdir : (clean svr.dir).rooted = true)
    (habs : (clean absolutePath).rooted = true)
    (hts : (clean absolutePath).elems = (clean svr.dir).elems ++ ts) (hplain : PlainElems ts) :
    dirOpen svr.dir (['/'].intercalate ts) = clean absolutePath := by
  obtain ⟨ts',-,hclean,hopen⟩ := dirOpen_below svr.dir (['/'].intercalate ts)
  cases hplain.clean_intercalate.symm.trans hclean
  rw [hopen,← hts,hdir,← habs]

theorem indexPage_suffix_iff (hplain : PlainElems ts) :
    indexPage <:+ '/' :: ['/'].intercalate ts ↔ ts.getLast? = some "index.html".toList := by
  have hsuffix :=
    slash_suffix_iff (s := ['/'].intercalate ts) (t := "index.html".toList) (by decide)
  rcases eq_or_ne ts [] with rfl | hne
  · exact iff_of_false (by decide) (by simp)
  · rwa [hplain.pieces_intercalate hne] at hsuffix

theorem mem_of_storeAll {conf : List FileServer} (h : storeAll conf svr.dir = some svr.apiPrefix) :
    svr ∈ conf := by
  induction conf using List.reverseRecOn with
  | nil => cases h
  | append_singleton conf last ih =>
    rw [storeAll,List.foldl_append] at h
    rcases eq_or_ne svr.dir last.dir with heq | hne
    · rw [heq] at h
      have hlast : some last.apiPrefix = some svr.apiPrefix := by simpa using h
      obtain ⟨_,_⟩ := svr
      cases heq
      cases hlast
      exact List.mem_append_right _ (List.mem_singleton_self _)
    · refine List.mem_append_left _ (ih ?_)
      rw [storeAll]
      simpa [Function.update_of_ne hne] using h

theorem ranged_of_perm {conf order : List FileServer} (hnodup : (conf.map (·.dir)).Nodup)
    (hperm : order.Perm conf) :
    Ranged (storeAll conf) order where
  once := (hperm.map _).nodup_iff.mpr hnodup
  stored svr := by
    rw [hperm.mem_iff]
    clear hperm
    refine ⟨fun hmem => ?_,mem_of_storeAll⟩
    induction conf using List.reverseRecOn with
    | nil => cases hmem
    | append_singleton conf last ih =>
      rw [List.map_append,List.nodup_append] at hnodup
      obtain ⟨hconf,-,hapart⟩ := hnodup
      rw [storeAll,List.foldl_append]
      rcases List.mem_append.mp hmem with hmem | hmem
      · have hne : svr.dir ≠ last.dir := hapart _ (List.mem_map_of_mem hmem) _ (by simp)
        exact (Function.update_of_ne hne ..).trans (ih hconf hmem)
      · cases List.mem_singleton.mp hmem
        exact Function.update_self ..

/-- The path for a download is made from a configured file server, whichever entry of the map
comes first. That one opens the file for the path just when the file lies below its directory
and is not called as an index page is; the directory itself is opened at the root only. -/
theorem download_path_opens_iff (conf order : List FileServer)
    (hrange : Ranged (storeAll conf) order)
    (hconf : ∀ svr ∈ conf, (∃ es, PlainPrefix svr.apiPrefix es) ∧ (clean svr.dir).rooted = true)
    (absolutePath : List Char) (habs : (clean absolutePath).rooted = true) (svr : FileServer)
    (hfirst : order.head? = some svr) : svr ∈ conf ∧ ∀ es, PlainPrefix svr.apiPrefix es →
      (Opens svr (getDlPath order absolutePath) (clean absolutePath) ↔
        ∃ ts, (clean absolutePath).elems = (clean svr.dir).elems ++ ts ∧ (ts = [] → es = []) ∧
          ts.getLast? ≠ some "index.html".toList) := by
  obtain ⟨rest,rfl⟩ := List.head?_eq_some_iff.mp hfirst
  have hmem : svr ∈ conf := mem_of_storeAll ((hrange.stored svr).mp List.mem_cons_self)
  have hdir := (hconf svr hmem).2
  refine ⟨hmem,fun es hapi => ?_⟩
  have hplain : ∀ ts, (clean absolutePath).elems = (clean svr.dir).elems ++ ts → PlainElems ts :=
    fun ts hts e he => plain_clean habs e (hts ▸ List.mem_append_right _ he)
  constructor
  · intro h
    obtain ⟨⟨ts,hts⟩,htrail⟩ := h.below
    have hroot : ts = [] → es = [] := by
      rintro rfl
      by_contra hne
      rw [List.append_nil] at hts
      rw [getDlPath_eq (rel_same hdir habs hts),join_dot,hapi.clean,hapi.trail,if_neg hne] at htrail
      have hlength := htrail.length_le
      simp [Path.chars] at hlength
    refine ⟨ts,hts.symm,hroot,fun hindex => ?_⟩
    have hpath := getDlPath_trail rest hapi hdir habs hts.symm (hplain ts hts.symm) hroot
    exact ((opens_trail_iff hpath _).mp h).2
      ((indexPage_suffix_iff (hplain ts hts.symm)).mpr hindex)
  · rintro ⟨ts,hts,hroot,hindex⟩
    have hpath := getDlPath_trail rest hapi hdir habs hts (hplain ts hts) hroot
    exact (opens_trail_iff hpath _).mpr ⟨dirOpen_file hdir habs hts (hplain ts hts),
      fun hsuffix => hindex ((indexPage_suffix_iff (hplain ts hts)).mp hsuffix)⟩

end Download

def staticServer : FileServer := ⟨"/api/static".toList,"/opt/s".toList⟩

def apiServer : FileServer := ⟨"/api".toList,"/opt/a".toList⟩

theorem download_path_opens_iff_below :
    Opens apiServer (getDlPath [apiServer,staticServer] "/opt/a/b/c".toList)
      (clean "/opt/a/b/c".toList) ∧
      getDlPath [apiServer,staticServer] "/opt/a/b/c".toList = "/api/b/c".toList := by
  have hplain : ∀ es : List (List Char), (∀ e ∈ es, e ∈ ["api".toList,"static".toList]) →
      PlainElems es := by
    intro es hes e he
    rcases List.mem_pair.mp (hes e he) with rfl | rfl
    · exact ⟨by decide,by decide,by decide,by decide⟩
    · exact ⟨by decide,by decide,by decide,by decide⟩
  have hapi : PlainPrefix apiServer.apiPrefix ["api".toList] := ⟨hplain _ (by decide),.inl rfl⟩
  have hstatic : PlainPrefix staticServer.apiPrefix ["api".toList,"static".toList] :=
    ⟨hplain _ (by decide),.inl rfl⟩
  refine ⟨((download_path_opens_iff staticAndApi _ (ranged_of_perm (by decide) (.swap ..)) ?_ _ rfl
    apiServer rfl).2 _ hapi).mpr
    ⟨["b".toList,"c".toList],by decide,by simp,by decide⟩,by decide⟩
  intro svr hsvr
  rcases List.mem_pair.mp hsvr with rfl | rfl
  · exact ⟨⟨_,hstatic⟩,rfl⟩
  · exact ⟨⟨_,hapi⟩,rfl⟩

end Imy.Fileserver
