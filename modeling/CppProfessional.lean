import CppProfessional.Allocator.Accounting
import CppProfessional.Allocator.Failures
import CppProfessional.Async.ConnectRace
import CppProfessional.Async.Periods
import CppProfessional.Async.Portions
import CppProfessional.Async.Shutdown
import CppProfessional.Bayan.Crc
import CppProfessional.Bayan.Masks
import CppProfessional.Bayan.Options
import CppProfessional.Bayan.Order
import CppProfessional.Bayan.Overlap
import CppProfessional.Bayan.Reports
import CppProfessional.Bayan.Streams
import CppProfessional.Bulk.Failures
import CppProfessional.Bulk.LogFiles
import CppProfessional.Bulk.Timestamps
import CppProfessional.BulkServer.Delivery
import CppProfessional.BulkServer.Language
import CppProfessional.BulkServer.Segments
import CppProfessional.BulkServer.Sessions
import CppProfessional.BulkServer.System
import CppProfessional.Capture.Delivery
import CppProfessional.Capture.StreamCapture
import CppProfessional.Commands.Replies
import CppProfessional.Editor.Objects
import CppProfessional.Editor.Pages
import CppProfessional.IpFilter.Comparator
import CppProfessional.IpFilter.Exactness
import CppProfessional.JoinServer.Listing
import CppProfessional.JoinServer.Protocol
import CppProfessional.JoinServer.Replies
import CppProfessional.JoinServer.Server
import CppProfessional.JoinServer.Writes
import CppProfessional.MapReduce.Jobs
import CppProfessional.MapReduce.Records
import CppProfessional.MapReduce.Statistics
import CppProfessional.Mlp.Accuracy
import CppProfessional.Mlp.Weights
import CppProfessional.PcQueue.Activity
import CppProfessional.PcQueue.Linearization
import CppProfessional.PcQueue.Stability
import CppProfessional.PcQueue.Wakeup
import CppProfessional.PrintIp.Overloads
import CppProfessional.SparseMatrix.Matrix
import CppProfessional.Streams.Rendering
