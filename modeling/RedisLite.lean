import RedisLite.ReadOnly
import RedisLite.FullResync
import RedisLite.PartialResync
import RedisLite.Pipeline
import RedisLite.Conversation
import RedisLite.WaitSound
import RedisLite.SetExpiry
import RedisLite.Deletion
import RedisLite.Sweep
import RedisLite.Leftover
import RedisLite.Handover
import RedisLite.Attachment
import RedisLite.Dispatch
import RedisLite.Checksum
import RedisLite.Truncation
import RedisLite.Cursor
import RedisLite.Grammar
import RedisLite.Controller.Attendance
import RedisLite.Controller.Report
import RedisLite.Controller.Timing
import RedisLite.Overdue
import RedisLite.Controller.Succession
import RedisLite.Controller.Survival
import RedisLite.Readable
import RedisLite.Progress
import RedisLite.Controller.Outage
import RedisLite.Controller.Chain
import RedisLite.Timeline
import RedisLite.Reading
import RedisLite.Startup
