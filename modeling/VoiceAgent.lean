import VoiceAgent.Lib.TSys
import VoiceAgent.Lib.Simulation
import VoiceAgent.Lib.Variant
import VoiceAgent.Lib.Semaphore
import VoiceAgent.Lib.WakeOrder
import VoiceAgent.Lib.AsyncTask
import VoiceAgent.Lib.Indexed
import VoiceAgent.Lib.Pieces
import VoiceAgent.Lib.Base64
import VoiceAgent.Lib.Resample
import VoiceAgent.Lib.Loop
import VoiceAgent.Lib.DbSession
import VoiceAgent.Lib.Params
import VoiceAgent.Lib.Replace
import VoiceAgent.Lib.Calendar
import VoiceAgent.Lib.DateTime
import VoiceAgent.Lib.Xml
import VoiceAgent.Lib.Json
import VoiceAgent.Model.PyVal
import VoiceAgent.Model.ClaudeAgent
import VoiceAgent.Model.CallGate
import VoiceAgent.Model.Deepgram
import VoiceAgent.Model.Playback
import VoiceAgent.Model.Persistence
import VoiceAgent.Model.Consumer
import VoiceAgent.Model.Audio
import VoiceAgent.Model.CallOrchestrator
import VoiceAgent.Model.LiveCall
import VoiceAgent.Model.Routers
import VoiceAgent.Model.Handler
import VoiceAgent.Model.Server
import VoiceAgent.Model.LiveSession
import VoiceAgent.Model.FrontDoor
import VoiceAgent.Model.Database
import VoiceAgent.Model.Config
import VoiceAgent.Model.BaseUrl
import VoiceAgent.Model.Security
import VoiceAgent.Model.App
import VoiceAgent.Model.Availability
import VoiceAgent.Model.BookSlot
import VoiceAgent.Model.DefaultTools
import VoiceAgent.Logic.AgentSteps
import VoiceAgent.Logic.History
import VoiceAgent.Logic.GateSteps
import VoiceAgent.Logic.GateQueue
import VoiceAgent.Logic.DeepgramSteps
import VoiceAgent.Logic.CallSteps
import VoiceAgent.Logic.Wire
import VoiceAgent.Logic.Playbacks
import VoiceAgent.Logic.Stopping
import VoiceAgent.Logic.Turns
import VoiceAgent.Logic.StopMeasure
import VoiceAgent.Logic.Greeting
import VoiceAgent.Logic.Records
import VoiceAgent.Logic.Frames
import VoiceAgent.Logic.ServerSteps
import VoiceAgent.Logic.Handlers
import VoiceAgent.Logic.Projection
import VoiceAgent.Logic.LiveSteps
import VoiceAgent.Logic.DatabaseSteps
import VoiceAgent.Logic.Seats
import VoiceAgent.Logic.JsonText
import VoiceAgent.Logic.StreamUrls
import VoiceAgent.Theorems.ToolPairing
import VoiceAgent.Theorems.NonEmptyMessages
import VoiceAgent.Theorems.AgentTurn
import VoiceAgent.Theorems.GateAccounting
import VoiceAgent.Theorems.GateOrder
import VoiceAgent.Theorems.Transcripts
import VoiceAgent.Theorems.Utterances
import VoiceAgent.Theorems.HalfDuplex
import VoiceAgent.Theorems.Replay
import VoiceAgent.Theorems.Delivery
import VoiceAgent.Theorems.WireText
import VoiceAgent.Theorems.InboundAudio
import VoiceAgent.Theorems.Quiescence
import VoiceAgent.Theorems.StaleBargeIn
import VoiceAgent.Theorems.ConsumerFree
import VoiceAgent.Theorems.GreetingRow
import VoiceAgent.Theorems.FailedTurn
import VoiceAgent.Theorems.ToolRecords
import VoiceAgent.Theorems.Conversation
import VoiceAgent.Theorems.MalformedFrames
import VoiceAgent.Theorems.Pipelines
import VoiceAgent.Theorems.SessionRows
import VoiceAgent.Theorems.Admission
import VoiceAgent.Theorems.ToolRequests
import VoiceAgent.Theorems.TurnRows
import VoiceAgent.Theorems.Cleanup
import VoiceAgent.Theorems.SttReader
import VoiceAgent.Theorems.Signature
import VoiceAgent.Theorems.Twiml
import VoiceAgent.Theorems.StreamUrl
import VoiceAgent.Theorems.CodecRoundTrip
import VoiceAgent.Theorems.NowaitAdmission
import VoiceAgent.Theorems.Availability
import VoiceAgent.Theorems.Booking
import VoiceAgent.Theorems.ModelContext
import VoiceAgent.Theorems.BookingTalk
import VoiceAgent.Theorems.LiveRefinement
import VoiceAgent.Theorems.StopTerminates
import VoiceAgent.Theorems.Drain
import VoiceAgent.Theorems.InboundPath
import VoiceAgent.Theorems.Serving
