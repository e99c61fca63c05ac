import RemoteBackup.Core.Connection
import RemoteBackup.Core.Server
import RemoteBackup.Proofs.TlvCodec
import RemoteBackup.Proofs.Credentials
import RemoteBackup.Proofs.Frames
import RemoteBackup.Proofs.Worlds
import RemoteBackup.Proofs.Requests
import RemoteBackup.Proofs.Transfers
import RemoteBackup.Proofs.SessionGate
import RemoteBackup.Proofs.Views
import RemoteBackup.Proofs.StoredUpload
import RemoteBackup.Proofs.ContentRouting
import RemoteBackup.Proofs.CreateOverwrite
import RemoteBackup.Proofs.FailedUpdate
import RemoteBackup.Proofs.SyncedView
import RemoteBackup.Proofs.Iteration
import RemoteBackup.Proofs.Replies
import RemoteBackup.Proofs.SessionLife
import RemoteBackup.Proofs.Serving
import RemoteBackup.Proofs.StaleTimer
import RemoteBackup.Proofs.WriteChain
import RemoteBackup.Proofs.ExitFree
import RemoteBackup.Proofs.Exceptions
import RemoteBackup.Proofs.Acknowledged
import RemoteBackup.Proofs.NonInterference
import RemoteBackup.Proofs.BufferBounds
import RemoteBackup.Proofs.EndDetection
import RemoteBackup.Proofs.SyncListing
import RemoteBackup.Proofs.FailedUpload
import RemoteBackup.Proofs.EraseTree
import RemoteBackup.Proofs.ChunkedCreate
import RemoteBackup.Proofs.EraseUndoesCreate
import RemoteBackup.Proofs.EraseForgets
import RemoteBackup.Proofs.ChunkedUpdate
import RemoteBackup.Proofs.ReplyChunks
import RemoteBackup.Proofs.RejectedRequests
import RemoteBackup.Proofs.Passwords
import RemoteBackup.Proofs.PathIdentity
import RemoteBackup.Proofs.Conversation
import RemoteBackup.Proofs.Durability
import RemoteBackup.Proofs.StoreRuns
import RemoteBackup.Proofs.CutOff
import RemoteBackup.Proofs.ConsoleRuns
