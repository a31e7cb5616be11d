import Imy.Gateway.Identity
set_option autoImplicit false

namespace Imy.Gateway
open Imy.Lib

structure URL where
  scheme : String
  host : String
  path : String
  rawQuery : String
  deriving DecidableEq, Repr

/-- The request as it goes out, with the URL that it is sent to. -/
structure OutRequest where
  url : URL
  host : String
  header : Header

def Request.outgoing (r : Request) : OutRequest := ⟨⟨"","",r.path,r.rawQuery⟩,r.host,r.header⟩

def singleJoiningSlash (a b : String) : String :=
  let aHas := "/".toList <:+ a.toList
  let bHas := "/".toList <+: b.toList
  if aHas ∧ bHas then a ++ String.ofList (b.toList.drop 1)
  else if ¬ aHas ∧ ¬ bHas then a ++ "/" ++ b
  else a ++ b

/-- `proxy.Director`, over the one that `NewSingleHostReverseProxy` has installed. -/
def director (origDirector : URL → OutRequest → OutRequest) (upstreamURL : URL) (r : OutRequest) :
    OutRequest :=
  let r := origDirector upstreamURL r
  let path :=
    if upstreamURL.path ≠ "" ∧ upstreamURL.path ≠ "/" then
      singleJoiningSlash upstreamURL.path r.url.path
    else r.url.path
  { r with
    url := { r.url with scheme := upstreamURL.scheme, host := upstreamURL.host, path := path }
    host := upstreamURL.host }

section Joined

def withoutLast (s : List Char) : List Char := if ['/'] <:+ s then s.dropLast else s

def withoutFirst (s : List Char) : List Char := if ['/'] <+: s then s.tail else s

/-- A base and a path with one slash between them. -/
def joinedOnce (base path : String) : String :=
  String.ofList (withoutLast base.toList ++ '/' :: withoutFirst path.toList)

/-- The path that the upstream is to be asked for. -/
def upstreamPath (base path : String) : String :=
  if base = "" ∨ base = "/" then path else joinedOnce base path

theorem withoutLast_append {s : List Char} (h : ['/'] <:+ s) (rest : List Char) :
    withoutLast s ++ '/' :: rest = s ++ rest := by
  obtain ⟨front,rfl⟩ := h
  simp [withoutLast]

theorem cons_withoutFirst {s : List Char} (h : ['/'] <+: s) : '/' :: withoutFirst s = s := by
  obtain ⟨back,rfl⟩ := h
  simp [withoutFirst]

/-- What the code joins is joined by one slash, whatever slashes there are. -/
theorem singleJoiningSlash_eq (a b : String) : singleJoiningSlash a b = joinedOnce a b := by
  refine String.toList_injective ?_
  have hslash : "/".toList = ['/'] := rfl
  rw [singleJoiningSlash,joinedOnce,hslash,String.toList_ofList]
  by_cases ha : ['/'] <:+ a.toList
  · rw [withoutLast_append ha]
    by_cases hb : ['/'] <+: b.toList
    · rw [if_pos ⟨ha,hb⟩,String.toList_append,String.toList_ofList,List.drop_one,
        withoutFirst,if_pos hb]
    · rw [if_neg (by simp [hb]),if_neg (by simp [ha]),String.toList_append,withoutFirst,if_neg hb]
  · rw [withoutLast,if_neg ha]
    by_cases hb : ['/'] <+: b.toList
    · rw [if_neg (by simp [ha]),if_neg (by simp [hb]),String.toList_append,cons_withoutFirst hb]
    · rw [if_neg (by simp [ha]),if_pos ⟨ha,hb⟩,withoutFirst,if_neg hb]
      simp [hslash]

theorem length_withoutFirst (s : List Char) : s.length ≤ (withoutFirst s).length+1 := by
  unfold withoutFirst
  split
  · rw [List.length_tail]
    omega
  · omega

/-- Something is left of every base but the empty one and the single slash. -/
theorem withoutLast_ne_nil {base : String} (hempty : base ≠ "") (hslash : base ≠ "/") :
    withoutLast base.toList ≠ [] := by
  intro hnil
  by_cases hlast : ['/'] <:+ base.toList
  · have hall := withoutLast_append hlast []
    rw [hnil,List.append_nil] at hall
    exact hslash (String.toList_injective hall.symm)
  · rw [withoutLast,if_neg hlast] at hnil
    exact hempty (String.toList_injective hnil)

/-- A path grows each time that such a base is put before it. -/
theorem joinedOnce_ne {base : String} (hempty : base ≠ "") (hslash : base ≠ "/") (path : String) :
    joinedOnce base path ≠ path := by
  intro heq
  have hlength := congrArg (fun s : String => s.toList.length) heq
  simp only [joinedOnce,String.toList_ofList,List.length_append,List.length_cons] at hlength
  have hleft := List.length_pos_iff.mpr (withoutLast_ne_nil hempty hslash)
  have hright := length_withoutFirst path.toList
  omega

theorem joinedOnce_trivial_iff {base : String} (h : base = "" ∨ base = "/") (path : String) :
    joinedOnce base path = path ↔ ['/'] <+: path.toList := by
  have hnone : withoutLast base.toList = [] := by
    rcases h with rfl | rfl
    · rfl
    · rfl
  rw [← String.toList_inj,joinedOnce,String.toList_ofList,hnone,List.nil_append]
  constructor
  · intro heq
    exact ⟨_,heq⟩
  · exact cons_withoutFirst

end Joined

section Director
variable {origDirector : URL → OutRequest → OutRequest}

/-- The path that goes out: below a base path the base stands there twice. -/
theorem director_path (horig : ∀ target r, (origDirector target r).url.path =
      joinedOnce target.path r.url.path) (upstreamURL : URL) (r : OutRequest) :
    (director origDirector upstreamURL r).url.path =
      if upstreamURL.path ≠ "" ∧ upstreamURL.path ≠ "/" then
        joinedOnce upstreamURL.path (joinedOnce upstreamURL.path r.url.path)
      else joinedOnce upstreamURL.path r.url.path := by
  rw [director]
  dsimp only
  rw [singleJoiningSlash_eq,horig]

theorem forwarded_path {c : GatewayConfig} {out : Outside} {r f : Request}
    (h : handler c out r = .forwarded f) : f.path = r.path := by
  cases hpath : isWhitelisted c out r.path with
  | false =>
    obtain ⟨-,-,-,-,claims,-,-,rfl⟩ := (forwarded_iff hpath).mp h
    rfl
  | true =>
    unfold handler at h
    split at h
    · cases h
    split at h
    · cases h
    cases h
    rfl

/-- A request that the handler passes on asks the upstream for the client's path, below
the base path once more than it should where there is one. -/
theorem forwarded_upstream_path (horig : ∀ target r, (origDirector target r).url.path =
      joinedOnce target.path r.url.path) (upstreamURL : URL) {c : GatewayConfig} {out : Outside}
    {r f : Request} (h : handler c out r = .forwarded f) :
    (director origDirector upstreamURL f.outgoing).url.path =
      if upstreamURL.path ≠ "" ∧ upstreamURL.path ≠ "/" then
        joinedOnce upstreamURL.path (joinedOnce upstreamURL.path r.path)
      else joinedOnce upstreamURL.path r.path := by
  rw [director_path horig,← forwarded_path h]
  rfl

/-- The path that goes out is the one it should be exactly without a base path, for a
path from the root. -/
theorem upstream_path_joined_once_iff (origDirector : URL → OutRequest → OutRequest)
    (horig : ∀ target r, (origDirector target r).url.path = joinedOnce target.path r.url.path)
    (upstreamURL : URL) (r : OutRequest) :
    (director origDirector upstreamURL r).url.path = upstreamPath upstreamURL.path r.url.path ↔
      (upstreamURL.path = "" ∨ upstreamURL.path = "/") ∧ ['/'] <+: r.url.path.toList := by
  rw [director_path horig,upstreamPath]
  by_cases hbase : upstreamURL.path = "" ∨ upstreamURL.path = "/"
  · rw [if_neg (by tauto),if_pos hbase,joinedOnce_trivial_iff hbase]
    simp [hbase]
  · obtain ⟨hempty,hslash⟩ := not_or.mp hbase
    rw [if_pos ⟨hempty,hslash⟩,if_neg hbase]
    exact iff_of_false (joinedOnce_ne hempty hslash _) fun h => hbase h.1

end Director

/-- The director of the standard library, as far as it goes here. -/
def singleHostDirector (target : URL) (r : OutRequest) : OutRequest :=
  { r with url := {
      scheme := target.scheme
      host := target.host
      path := singleJoiningSlash target.path r.url.path
      rawQuery := if target.rawQuery = "" ∨ r.url.rawQuery = "" then
        target.rawQuery ++ r.url.rawQuery
        else target.rawQuery ++ "&" ++ r.url.rawQuery } }

def getMessage : OutRequest := ⟨⟨"","","/chat/1",""⟩,"gateway",fun _ => []⟩

theorem upstream_path_joined_once_iff_root :
    (director singleHostDirector ⟨"http","upstream","/",""⟩ getMessage).url.path = "/chat/1" :=
  (upstream_path_joined_once_iff singleHostDirector
    (fun _ _ => singleJoiningSlash_eq _ _) _ getMessage).mpr
    ⟨Or.inr rfl,by decide⟩

/-- Below the base path `/api` the request asks for `/api/api/chat/1`. -/
theorem base_path_doubled :
    (∀ target r, (singleHostDirector target r).url.path = joinedOnce target.path r.url.path) ∧
      (director singleHostDirector ⟨"http","upstream","/api",""⟩ getMessage).url.path =
        "/api/api/chat/1" ∧
      upstreamPath "/api" "/chat/1" = "/api/chat/1" :=
  ⟨fun _ _ => singleJoiningSlash_eq _ _,by decide,by decide⟩

end Imy.Gateway
