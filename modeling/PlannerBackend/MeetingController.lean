import PlannerBackend.UserController

set_option autoImplicit false

namespace Planner

open Docs Resume

namespace AddMeeting

def demanded : List String :=
  ["topic", "hostId", "hostName", "participantId", "participantName", "meetingStartDate", "meetingEndDate",
    "meetingDescription", "meetingPlace"]

def validateUserInput (req : Request) : Async Unit := fun resolve reject =>
  if demanded.all fun name => Js.truthy (req.body.get name) then resolve ()
  else reject (.api (generate true "One or More Parameter(s) is missing" 400 .null))

def newMeeting (pkg : Packages) (req : Request) (meetingId : String) (createdOn : Scalar) : Except String (Row MeetingField) := do
  let topic ← castPath pkg.castString (.str "") (req.body.get "topic")
  let hostId ← castPath pkg.castString (.str "") (req.body.get "hostId")
  let hostName ← castPath pkg.castString (.str "") (req.body.get "hostName")
  let participantId ← castPath pkg.castString (.str "") (req.body.get "participantId")
  let participantName ← castPath pkg.castString (.str "") (req.body.get "participantName")
  let participantEmail ← castPath pkg.castString (.str "") (req.body.get "participantEmail")
  let meetingStartDate ← castPath pkg.castDate .null (req.body.get "meetingStartDate")
  let meetingEndDate ← castPath pkg.castDate .null (req.body.get "meetingEndDate")
  let meetingDescription ← castPath pkg.castString (.str "false") (req.body.get "meetingDescription")
  let meetingPlace ← castPath pkg.castString (.str "") (req.body.get "meetingPlace")
  return fun
    | .meetingId => some (.str meetingId)
    | .topic => some topic
    | .hostId => some hostId
    | .hostName => some hostName
    | .participantId => some participantId
    | .participantName => some participantName
    | .participantEmail => some participantEmail
    | .meetingStartDate => some meetingStartDate
    | .meetingEndDate => some meetingEndDate
    | .meetingDescription => some meetingDescription
    | .meetingPlace => some meetingPlace
    | .createdOn => some createdOn

def html (participantName hostName topic meetingDescription meetingStartDate meetingPlace : String) : String :=
  "<p> Hi " ++ participantName ++ " , " ++ hostName ++ " has scheduled <br>
                        a meeting for you via Meeting-Planner.</p>
                              <br> 
                              
                        <div>
                              <div>
                                <label>Meeting Topic : </label>
                                <h4 >" ++ topic ++ "</h4>
                              </div><br>

                              <div>
                              <label>Description : </label>
                              <p>" ++ meetingDescription ++ "</p>
                              </div><br>
                              
                              
                            <div>
                                <label for=\"startDate\">Date : </label>
                                <p id=\"startDate\">Your meeting starts from " ++ meetingStartDate ++ "</p>
                            </div><br>

                             <div>
                                <label>Venue : </label>
                                <p>" ++ meetingPlace ++ "</p>
                              </div> 
                        </div>      
                              "

def mail (pkg : Packages) (meeting : Row MeetingField) : Mail where
  email := meeting .participantEmail
  subject := "New meeting scheduled"
  html := html (scalarText pkg (meeting .participantName)) (scalarText pkg (meeting .hostName)) (scalarText pkg (meeting .topic))
    (scalarText pkg (meeting .meetingDescription)) (scalarText pkg (meeting .meetingStartDate))
    (scalarText pkg (meeting .meetingPlace))

def addMeetingAfterValidation (pkg : Packages) (req : Request) : Async (Row MeetingField) := fun resolve reject =>
  .sample fun id => .sample fun at_ =>
    meetingModel.call (.insert (newMeeting pkg req id.shortid (timeNow at_))) fun
      | .error _ => reject (.api (generate true "Failed to add new Meeting" 500 .null))
      | .ok newMeeting => .emit (.mail (mail pkg newMeeting.row)) (resolve newMeeting.row)

end AddMeeting

def addMeeting (pkg : Packages) (req : Request) : Process :=
  Promise.finish (Promise.andThen (AddMeeting.validateUserInput req) fun _ => AddMeeting.addMeetingAfterValidation pkg req)
    (fun meeting => send (generate false "Meeting Created" 200 (.meetingDetails meeting)))
    (fun err => .emit (.send 200 err) .halt)

-- updateMeeting and deleteMeeting each declare this stage; they differ only in
-- a projection of paths that neither of them reads.
def findMeetingDetails (req : Request) : Async (Doc MeetingField) := fun resolve reject =>
  meetingModel.call (.findOne .meetingId (req.param "meetingId")) fun
    | .error _ => reject (.api (generate true "Failed To Find Meeting Details" 500 .null))
    | .ok found =>
        whenFound found (fun doc => leanValue doc.row) (reject (.api (generate true "No Meeting Found" 404 .null))) resolve

namespace UpdateMeeting

def html (participantName hostName oldTopic topic meetingDescription meetingStartDate meetingPlace : String) : String :=
  "<p> Hi " ++ participantName ++ " , " ++ hostName ++ " has updated your <br>
                        meeting titled -<cite> " ++ oldTopic ++ "</cite>.</p><br>
                        
                        <h3>Your new updated meeting info</h3><br>
                              
                        <div>
                              <div>
                                <label>Meeting Topic : </label>
                                <h4 >" ++ topic ++ "</h4>
                              </div><br>

                              <div>
                              <label>Description : </label>
                              <p>" ++ meetingDescription ++ "</p>
                              </div><br>
                              
                              
                            <div>
                                <label for=\"startDate\">Date : </label>
                                <p id=\"startDate\">Your meeting starts from " ++ meetingStartDate ++ "</p>
                            </div><br>

                             <div>
                                <label>Venue : </label>
                                <p>" ++ meetingPlace ++ "</p>
                              </div> 
                        </div>      
                              "

-- The template prints the raw body, whose values need not convert to a string.
def mail (pkg : Packages) (meetingDetails : Row MeetingField) (options : Js.Value) : Except Js.Thrown Mail := do
  let topic ← Js.toText (options.get "topic")
  let meetingDescription ← Js.toText (options.get "meetingDescription")
  let meetingStartDate ← Js.toText (options.get "meetingStartDate")
  let meetingPlace ← Js.toText (options.get "meetingPlace")
  return {
    email := meetingDetails .participantEmail
    subject := "Meeting Updated"
    html := html (scalarText pkg (meetingDetails .participantName)) (scalarText pkg (meetingDetails .hostName))
      (scalarText pkg (meetingDetails .topic)) topic meetingDescription meetingStartDate meetingPlace }

def updateMeetingAfterFinding (pkg : Packages) (req : Request) (meetingDetails : Doc MeetingField) : Async UpdateReply :=
  fun resolve reject =>
    meetingModel.call (.update .meetingId (req.param "meetingId") (pkg.meetingChange req.body)) fun
      | .error _ => reject (.api (generate true "Failed To Update Meeting details" 500 .null))
      | .ok result =>
          whenFound (some result) replyValue (reject (.api (generate true "No Meeting Found" 404 .null))) fun reply =>
            match mail pkg meetingDetails.row req.body with
            | .error _ => .crash
            | .ok sendEmailObj => .emit (.mail sendEmailObj) (resolve reply)

end UpdateMeeting

def updateMeeting (pkg : Packages) (req : Request) : Process :=
  Promise.finish (Promise.andThen (findMeetingDetails req) (UpdateMeeting.updateMeetingAfterFinding pkg req))
    (fun reply => send (generate false "Meeting Updated" 200 (.reply reply)))
    (fun err => .emit (.send 200 err) .halt)

namespace DeleteMeeting

def html (participantName hostName topic : String) : String :=
  "<h3> Meeting Canceled </h3>
                              <br> Hi , " ++ participantName ++ " .
                              <br> " ++ hostName ++ " has canceled the meeting titled: 
                              <cite><b>" ++ topic ++ "</b><cite>.
                            "

def mail (pkg : Packages) (meetingDetails : Row MeetingField) : Mail where
  email := meetingDetails .participantEmail
  subject := "Meeting Canceled"
  html := html (scalarText pkg (meetingDetails .participantName)) (scalarText pkg (meetingDetails .hostName))
    (scalarText pkg (meetingDetails .topic))

def deleteMeeting (pkg : Packages) (req : Request) (meetingDetails : Doc MeetingField) : Async Response := fun resolve reject =>
  meetingModel.call (.findOneAndRemove .meetingId (req.param "meetingId")) fun
    | .error _ => reject (.api (generate true "Failed To delete Meeting" 500 .null))
    | .ok found =>
        whenFound found documentValue (reject (.api (generate true "No Meeting Found" 404 .null))) fun result =>
          .emit (.mail (mail pkg meetingDetails.row))
            (resolve (generate false "Deleted Meeting successfully" 200 (.meeting ⟨result.id, hydrateMeeting result.row⟩)))

end DeleteMeeting

def deleteMeeting (pkg : Packages) (req : Request) : Process :=
  Promise.finish (Promise.andThen (findMeetingDetails req) (DeleteMeeting.deleteMeeting pkg req))
    (fun response => .emit (.send 200 (.api response)) .halt)
    (fun err => .emit (.send 200 err) .halt)

namespace GetAllMeetingsOfUser

def validateUrlParam (req : Request) : Async Unit := fun resolve reject =>
  if Js.truthy (req.param "userId") then resolve ()
  else reject (.api (generate true "missing userId" 400 .null))

def findMeetings (req : Request) : Async (List (Doc MeetingField)) := fun resolve reject =>
  meetingModel.call (.find (some (.participantId, req.param "userId"))) fun
    | .error _ => reject (.api (generate true "Failed To Find Meetings" 500 .null))
    | .ok meetingDetails =>
        match isEmpty (.arr ((meetingDetails.map Doc.row).map leanValue)) with
        | .error _ => .crash
        | .ok true => reject (.api (generate true "No Meeting Found" 404 .null))
        | .ok false => resolve meetingDetails

end GetAllMeetingsOfUser

def getAllMeetingsOfUser (req : Request) : Process :=
  Promise.finish (Promise.andThen (GetAllMeetingsOfUser.validateUrlParam req) fun _ => GetAllMeetingsOfUser.findMeetings req)
    (fun meetings => send (generate false "Meetings Found and Listed" 200 (.meetings meetings)))
    (fun err => .emit (.send 200 err) .halt)

def getMeetingByMeetingId (req : Request) : Process :=
  meetingModel.call (.findOne .meetingId (req.param "meetingId")) fun
    | .error _ => send (generate true "Failed To Find Meeting" 500 .null)
    | .ok found =>
        whenFound (found.map Doc.row) leanValue (send (generate true "No Meeting Found" 404 .null))
          fun meetingDetails => send (generate false "Meeting Found" 200 (.meetingDetails meetingDetails))

end Planner
