import Imy.Lib.Separated
import Imy.Chat.Answers
import Imy.Chat.MessageHistory
set_option autoImplicit false

namespace Imy.Chat
open Imy.Lib

/-- What is returned of a message is what it was sent with. -/
structure Survives (req : SendMessageReq) (info : MessageInfo) : Prop where
  msgType : info.msgType = req.msgType
  content : info.content = req.content
  contentExtra : info.contentExtra = req.contentExtra
  replyToMessageId : info.replyToMessageId = req.replyToMessageId
  mentionedUuids : info.mentionedUuids = req.mentionedUuids
  isSystem : info.isSystem = 1 ↔ info.msgType = 6

/-- The type is its own low byte with the sign extended. -/
def TypeFits (msgType : UInt32) : Prop := msgType < 128 ∨ 2^32-128 ≤ msgType.toNat

/-- No UUID is cut by its own comma, and the list is told from the empty one. -/
def MentionsFit (mentionedUuids : List String) : Prop :=
  (∀ u ∈ mentionedUuids, ',' ∉ u.toList) ∧ mentionedUuids ≠ [""]

section MsgType

/-- A widened number is what it was, or it lies as far below the top as it was below zero. -/
theorem toNat_widened (n : Int8) :
    (n.toInt32.toUInt32.toNat : Int) = if 0 ≤ n.toInt then n.toInt else n.toInt+2^32 := by
  have hwide : n.toInt32.toBitVec.toInt = n.toInt := Int8.toInt_toInt32 n
  have hlt : n.toInt32.toBitVec.toNat < 2^32 := n.toInt32.toBitVec.isLt
  have hnat : n.toInt32.toUInt32.toNat = n.toInt32.toBitVec.toNat := rfl
  rw [BitVec.toInt_eq_toNat_cond] at hwide
  rw [hnat]
  split at hwide <;> split <;> omega

theorem toInt_narrowed (t : UInt32) : t.toUInt8.toInt8.toInt =
    if t.toNat % 256 < 128 then (t.toNat % 256 : Int) else t.toNat % 256-256 := by
  have hnat : t.toUInt8.toInt8.toBitVec.toNat = t.toNat % 256 := UInt32.toNat_toUInt8 t
  have hint : t.toUInt8.toInt8.toInt = t.toUInt8.toInt8.toBitVec.toInt := rfl
  rw [hint,BitVec.toInt_eq_toNat_cond,hnat]
  split <;> split <;> omega

/-- A type that is not zero comes back through its column, whose default stands in for
a zero. -/
theorem msgType_survives_iff {t : UInt32} (ht : t ≠ 0) :
    (if t.toUInt8.toInt8 = 0 then 1 else t.toUInt8.toInt8 : Int8).toInt32.toUInt32 = t ↔
      TypeFits t := by
  have hlt := t.toNat_lt
  have hpos : t.toNat ≠ 0 := fun hzero => ht (UInt32.toNat_inj.mp hzero)
  have hnarrow := toInt_narrowed t
  have hwide := toNat_widened t.toUInt8.toInt8
  have hzero : t.toUInt8.toInt8 = 0 ↔ t.toUInt8.toInt8.toInt = 0 := Int8.toInt_inj.symm
  have hdefault : (1 : Int8).toInt32.toUInt32.toNat = 1 := rfl
  have hbound : (128 : UInt32).toNat = 128 := rfl
  rw [TypeFits,← UInt32.toNat_inj,UInt32.lt_iff_toNat_lt,hbound]
  split
  · rename_i hlow
    rw [hzero] at hlow
    rw [hdefault]
    split at hnarrow <;> omega
  · rename_i hlow
    rw [hzero] at hlow
    split at hnarrow <;> split at hwide <;> omega

end MsgType

/-- A list of UUIDs comes back from the text that it is joined to. -/
theorem mentions_survive_iff (uuids : List String) :
    (if ",".intercalate uuids ≠ "" then (",".intercalate uuids).splitOn "," else []) = uuids ↔
      MentionsFit uuids := by
  have hsplit := splitOn_join_iff ',' uuids
  have hempty := join_eq_empty_iff ',' uuids
  rw [show String.singleton ',' = "," from rfl] at hsplit hempty
  split
  · rename_i hjoined
    have hsome := not_or.mp (mt hempty.mpr hjoined)
    rw [hsplit,MentionsFit]
    simp [hsome]
  · rename_i hjoined
    rcases hempty.mp (not_not.mp hjoined) with rfl | rfl
    · simp [MentionsFit]
    · simp [MentionsFit]

section Row
variable {req : SendMessageReq}

/-- What a request leaves in the table is what it had, if its type and its mentions fit. -/
theorem survives_stored_iff (hvalid : ¬ req.Invalid) (id : Nat) (createdAt : Int) :
    Survives req (req.message.stored id createdAt).info ↔
      TypeFits req.msgType ∧ MentionsFit req.mentionedUuids := by
  have ht : req.msgType ≠ 0 := fun hzero => hvalid (Or.inr (Or.inr (Or.inr hzero)))
  rw [← msgType_survives_iff ht,← mentions_survive_iff]
  constructor
  · exact fun h => ⟨h.msgType,h.mentionedUuids⟩
  · rintro ⟨htype,hmentions⟩
    have hreturned : (req.message.stored id createdAt).info.msgType = req.msgType := htype
    refine ⟨hreturned,rfl,rfl,rfl,hmentions,?_⟩
    rw [hreturned]
    by_cases hsystem : req.msgType = 6
    · simp [ChatMessage.info,ChatMessage.stored,SendMessageReq.message,ternary,hsystem]
    · simp [ChatMessage.info,ChatMessage.stored,SendMessageReq.message,ternary,hsystem]

/-- A message that is still there is returned as it would have been before, but that it
may have been revoked. -/
theorem survives_still {m m' : ChatMessage} (h : StillMessage m m') :
    Survives req m'.info ↔ Survives req m.info := by
  have hinfo : m'.info = { m.info with isRevoked := m'.info.isRevoked } := by
    simp [ChatMessage.info,h.id,h.conversationID,h.sendUUID,h.msgType,h.content,h.contentExtra,
      h.replyToMessageID,h.mentionedUuids,h.isSystem,h.createdAt]
  rw [hinfo]
  constructor
  · exact fun hs =>
      ⟨hs.msgType,hs.content,hs.contentExtra,hs.replyToMessageId,hs.mentionedUuids,hs.isSystem⟩
  · exact fun hs =>
      ⟨hs.msgType,hs.content,hs.contentExtra,hs.replyToMessageId,hs.mentionedUuids,hs.isSystem⟩

end Row

section Run
variable {ι : Type} [DecidableEq ι] {out : Outer} {parse : String → Option Int} {db : Database}
  {reqs : ι → Request} {schedule : List ι} {i j : ι}

/-- However calls run side by side, a message that was inserted for a request is returned
with the fields of the request exactly if its type and its mentions fit. -/
theorem message_fields_survive_iff (hkeyed : Keyed db) {req : SendMessageReq} {get : GetMessagesReq}
    (hsend : reqs i = .operation (.sendMessage req)) (hget : reqs j = .getMessages get)
    {row msg : ChatMessage} (hinsert : Pool.Asked (exec out)
      (startTogether parse db reqs) schedule i
      ⟨.createMessage row,.ok msg⟩) {list : List MessageInfo}
    (hlist : (j,.respond (.ok (.messages list))) ∈ (runTogether out parse db reqs schedule).log)
    {info : MessageInfo} (hinfo : info ∈ list) (hid : info.id = msg.id) :
    Survives req info ↔ TypeFits req.msgType ∧ MentionsFit req.mentionedUuids := by
  obtain ⟨_,hrequest⟩ := answers_of_asked hinsert
  rw [hsend] at hrequest
  obtain ⟨hvalid,hrow⟩ := hrequest
  obtain ⟨⟨id,createdAt,rfl⟩,m₁,hm₁,hsame₁⟩ := message_of_insert hinsert
  obtain ⟨trace,hshown,hasked⟩ := answers_of_log hlist
  rw [hget] at hshown
  obtain ⟨c,mode,limit,page,hpage,hfrom⟩ := hshown
  obtain ⟨m,hm,rfl⟩ := hfrom info hinfo
  obtain ⟨m₂,hm₂,hsame₂⟩ := message_of_asked (hasked _ hpage) hm
  -- both rows have become the one with their ID
  have hone : m₁ = m₂ := message_eq_of_id (keyed_run hkeyed schedule) hm₁ hm₂
    (hsame₁.id.trans (hid.symm.trans hsame₂.id.symm))
  subst hone
  rw [← survives_still hsame₂,survives_still hsame₁,hrow]
  exact survives_stored_iff hvalid id createdAt

end Run

section Notices

/-- A message of a type, with the users that it mentions. -/
def notice (msgType : UInt32) (mentionedUuids : List String) : SendMessageReq :=
  ⟨"a",1,"k",msgType,"hello","",0,mentionedUuids⟩

def notice.row (msgType : UInt32) (mentionedUuids : List String) : ChatMessage :=
  (notice msgType mentionedUuids).message.stored 1 0

def reading : GetMessagesReq := ⟨"b",1,0,0,20⟩

def noticeCalls (msgType : UInt32) (mentionedUuids : List String) (sends : Bool) : Request :=
  if sends then .operation (.sendMessage (notice msgType mentionedUuids)) else .getMessages reading

def insertedThenRead : List Bool := [true,true,true] ++ [false,false,false]

theorem page_returned {p : Calls Bool} {out : Outer} {m : ChatMessage}
    (hthread : p.threads false = serve (getMessages reading))
    (hmembers : p.state.members = pairDatabase.members)
    (hmessages : p.state.messages = [m]) (hconv : m.conversationID = 1) :
    (false,.respond (.ok (.messages [m.info]))) ∈ (p.run (exec out) [false,false,false]).log := by
  have hmem : (exec out (.takeMember 1 "b") p.state).1 = .ok { memberRow 1 "b" with id := 2 } := by
    change found (p.state.live.find? _) = _
    rw [Database.live,hmembers]
    rfl
  have hpage : (exec out (.findMessages 1 .latest 20) p.state).1 = .ok [m] := by
    change Except.ok (p.state.findMessages 1 .latest 20) = _
    simp [Database.findMessages,Database.history,hmessages,hconv]
  have hchecked := Pool.next_of_ask (exec out) (q := .takeMember 1 "b") hthread
  rw [hmem] at hchecked
  have hstate : (p.next (exec out) false).state = p.state := by
    rw [hchecked]
    rfl
  have hread := Pool.next_of_ask (exec out) (p := p.next (exec out) false) (i := false)
    (q := .findMessages 1 .latest 20) (by
      rw [hchecked]
      simp only [Function.update_self]
      rfl)
  rw [hstate,hpage] at hread
  have hreturned :=
    Pool.next_of_ask (exec out) (p := (p.next (exec out) false).next (exec out) false)
    (i := false) (q := .respond (.ok (.messages [m.info]))) (by
      rw [hread]
      simp only [Function.update_self]
      rfl)
  change _ ∈ (((p.next (exec out) false).next (exec out) false).next (exec out) false).log
  rw [hreturned]
  simp

/-- The message is new, and it is on the page that is read. -/
structure NoticeRead (msgType : UInt32) (mentionedUuids : List String) : Prop where
  inserted : Pool.Asked (exec countingOuter)
    (startTogether noTimes pairDatabase (noticeCalls msgType mentionedUuids)) insertedThenRead true
    ⟨.createMessage (notice msgType mentionedUuids).message,.ok (notice.row msgType mentionedUuids)⟩
  returned : (false,.respond (.ok (.messages [(notice.row msgType mentionedUuids).info]))) ∈
    (runTogether countingOuter noTimes pairDatabase
      (noticeCalls msgType mentionedUuids) insertedThenRead).log

theorem noticeRead {msgType : UInt32} (h : msgType = 1 ∨ msgType = 262)
    (mentionedUuids : List String) :
    NoticeRead msgType mentionedUuids := by
  constructor
  · refine ⟨[true,true],[false,false,false],?_⟩
    rcases h with rfl | rfl
    · exact ⟨_,rfl,rfl,rfl⟩
    · exact ⟨_,rfl,rfl,rfl⟩
  · rw [runTogether,insertedThenRead,Pool.run_append]
    rcases h with rfl | rfl
    · exact page_returned (by rfl) (by rfl) (by rfl) rfl
    · exact page_returned (by rfl) (by rfl) (by rfl) rfl

theorem message_fields_survive_iff_notice :
    Survives (notice 1 ["b","c"]) (notice.row 1 ["b","c"]).info := by
  have hread := noticeRead (Or.inl rfl) ["b","c"]
  have hkeyed : Keyed pairDatabase := by constructor <;> decide
  exact (message_fields_survive_iff hkeyed (by rfl) (by rfl) hread.inserted hread.returned
    (List.mem_singleton_self _) rfl).mpr ⟨Or.inl (by decide),by decide,by decide⟩

/-- The type 262 comes back as 6, and a UUID with a comma as two. -/
theorem type_and_mention_lost :
    (NoticeRead 262 [] ∧ (notice.row 262 []).info.msgType = 6 ∧
      ¬ Survives (notice 262 []) (notice.row 262 []).info) ∧
    NoticeRead 1 ["b,c"] ∧ ¬ Survives (notice 1 ["b,c"]) (notice.row 1 ["b,c"]).info := by
  refine ⟨⟨noticeRead (Or.inr rfl) [],rfl,fun h => ?_⟩,noticeRead (Or.inl rfl) ["b,c"],fun h => ?_⟩
  · exact absurd h.msgType (by decide)
  · have hfits := (survives_stored_iff (by decide) 1 0).mp h
    exact hfits.2.1 "b,c" (List.mem_singleton_self _) (by decide)

end Notices

end Imy.Chat
